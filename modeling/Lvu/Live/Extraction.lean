import Lvu.Live.TimeField

/-!
# The fields of a record

Recognition looks at all fields of a record, of its JSON or else of its `key=value` pairs
(`lvu-live/src/time.rs`).  Reading JSON is a parameter.
-/

namespace Lvu.Time

open List

def MAX_STRUCTURED_FIELDS : ℕ := 256

def MAX_JSON_DEPTH : ℕ := 3

/-- `serde_json::Value`, as far as recognition tells values apart.  A number is the text it is
printed as. -/
inductive Json
  | object (entries : List (List Char × Json))
  | string (text : List Char)
  | number (text : List Char)
  | other

def PRIORITY_KEYS : List (List Char) :=
  ["timestamp", "@timestamp", "time", "ts", "event_time", "eventtime", "datetime", "date_time",
    "asctime", "log_time", "logtime", "occurred_at", "recorded_at", "created_at", "epoch",
    "date"].map String.toList

structure ExtractedField where
  path : List Char
  value : List Char
  numericType : Bool
  priority : Option ℕ
  unitHint : Option EpochUnit

def normalizeKey (key : List Char) : List Char := (trim key).map Char.toLower

/-- The endings of a key that name a unit. -/
def unitEndings : List (List Char × EpochUnit) :=
  [("_ms".toList, .milliseconds), ("_millis".toList, .milliseconds), ("_us".toList, .microseconds),
    ("_micros".toList, .microseconds), ("_ns".toList, .nanoseconds), ("_nanos".toList, .nanoseconds),
    ("_s".toList, .seconds), ("_sec".toList, .seconds), ("_secs".toList, .seconds),
    ("_seconds".toList, .seconds)]

/-- The keys that may have such an ending. -/
def unitStems : List (List Char) :=
  ["ts", "time", "timestamp", "epoch", "unix", "unix_time", "event_time"].map String.toList

def keyUnitHint (key : List Char) : Option EpochUnit :=
  (unitEndings.findSome? fun (ending, unit) => (key.dropSuffix? ending).map fun stem => (stem, unit)).bind
    fun (stem, unit) => if unitStems.contains stem then some unit else none

def keyPriority (key : List Char) : Option ℕ :=
  (PRIORITY_KEYS.findIdx? (· = key)).or ((keyUnitHint key).map fun _ => PRIORITY_KEYS.length)

def field (path value : List Char) (numericType : Bool) : ExtractedField :=
  let key := normalizeKey ((path.splitOn '.').getLastD path)
  { path, value, numericType, priority := keyPriority key, unitHint := keyUnitHint key }

/-- The loop of `collect_json` over an object; `nested` collects an object in it. -/
def collectObject
    (nested : List Char → List (List Char × Json) → List ExtractedField → List ExtractedField)
    (outer : List Char) (entries : List (List Char × Json)) (out : List ExtractedField) :
    List ExtractedField :=
  entries.foldl (fun out (key, value) =>
    if MAX_STRUCTURED_FIELDS ≤ out.length then out
    else
      let path := if outer = [] then key else outer ++ '.' :: key
      match value with
      | .object entries => nested path entries out
      | .string text => out ++ [field path text false]
      | .number text => out ++ [field path text true]
      | .other => out) out

/-- `collect_json`, with so many levels of objects still to enter. -/
def collectJson :
    ℕ → List Char → List (List Char × Json) → List ExtractedField → List ExtractedField
  | 0 => collectObject fun _ _ out => out
  | levels + 1 => collectObject (collectJson levels)

/-! ### `key=value` pairs -/

/-- `u8::is_ascii_whitespace`. -/
def isAsciiWhitespace (c : Char) : Bool := c = ' ' || c = '\t' || c = '\n' || c = '\x0C' || c = '\r'

/-- A quoted value and what follows its closing quote. -/
def quotedValue : List Char → List Char → Option (List Char × List Char)
  | _, [] => none
  | value, '"' :: cs => some (value, cs)
  | _, ['\\'] => none
  | value, '\\' :: c :: cs => quotedValue (value ++ [c]) cs
  | value, c :: cs => quotedValue (value ++ [c]) cs

/-- A value and what follows it. -/
def logfmtValue (cs : List Char) : Option (List Char × List Char) :=
  match cs with
  | '"' :: cs => quotedValue [] cs
  | cs => some (cs.takeWhile (!isAsciiWhitespace ·), cs.dropWhile (!isAsciiWhitespace ·))

theorem quotedValue_length {value value' cs cs' : List Char}
    (h : quotedValue value cs = some (value', cs')) : cs'.length ≤ cs.length := by
  fun_induction quotedValue value cs with
  | case1 => cases h
  | case2 value cs =>
    simp only [Option.some.injEq, Prod.mk.injEq] at h
    rw [← h.2, length_cons]
    exact Nat.le_succ _
  | case3 => cases h
  | case4 value c cs ih | case5 value c cs _ _ _ ih =>
    have := ih h
    simp only [length_cons]
    omega

theorem logfmtValue_length {value cs cs' : List Char} (h : logfmtValue cs = some (value, cs')) :
    cs'.length ≤ cs.length := by
  unfold logfmtValue at h
  split at h
  · have := quotedValue_length h
    simp only [length_cons]
    omega
  · simp only [Option.some.injEq, Prod.mk.injEq] at h
    rw [← h.2]
    exact (dropWhile_suffix _).length_le

theorem length_dropWhile_le (q : Char → Bool) (cs : List Char) : (cs.dropWhile q).length ≤ cs.length :=
  (dropWhile_suffix q).length_le

theorem head_not_blank {c : Char} {cs rest : List Char}
    (h : cs.dropWhile isAsciiWhitespace = c :: rest) : isAsciiWhitespace c = false := by
  have hne : cs.dropWhile isAsciiWhitespace ≠ [] := by simp [h]
  have hhead := head_dropWhile_not isAsciiWhitespace hne
  simpa [h] using hhead

theorem length_skipped_lt (q : Char → Bool) {c : Char} (hc : isAsciiWhitespace c = false)
    (rest : List Char) :
    (((c :: rest).dropWhile q).dropWhile (!isAsciiWhitespace ·)).length < (c :: rest).length := by
  rw [length_cons, Nat.lt_succ_iff]
  by_cases hq : q c = true
  · rw [dropWhile_cons_of_pos hq]
    exact Nat.le_trans (length_dropWhile_le _ _) (length_dropWhile_le _ _)
  · rw [dropWhile_cons_of_neg hq, dropWhile_cons_of_pos (by simp [hc])]
    exact length_dropWhile_le _ _

/-- The loop of `logfmt_pairs`. -/
def logfmtLoop (cs : List Char) (fields : List ExtractedField) :
    Except String (List ExtractedField) :=
  if MAX_STRUCTURED_FIELDS ≤ fields.length then .ok fields
  else
    match _hskip : cs.dropWhile isAsciiWhitespace with
    | [] => .ok fields
    | c :: rest =>
      let key := (c :: rest).takeWhile fun c => !isAsciiWhitespace c && c ≠ '='
      match _hkey : (c :: rest).dropWhile fun c => !isAsciiWhitespace c && c ≠ '=' with
      | '=' :: after =>
        match _hvalue : logfmtValue after with
        | none => .error "malformed logfmt: unterminated quoted value"
        | some (value, after) =>
          logfmtLoop after (if key = [] then fields else fields ++ [field key value false])
      | after => logfmtLoop (after.dropWhile (!isAsciiWhitespace ·)) fields
termination_by cs.length
decreasing_by
  · have hafter := logfmtValue_length _hvalue
    have hkey := length_dropWhile_le (fun c => !isAsciiWhitespace c && c ≠ '=') (c :: rest)
    have hskip := length_dropWhile_le isAsciiWhitespace cs
    rw [_hkey, length_cons] at hkey
    rw [_hskip] at hskip
    omega
  · have hskip := length_dropWhile_le isAsciiWhitespace cs
    rw [_hskip] at hskip
    exact Nat.lt_of_lt_of_le (_hkey ▸ length_skipped_lt _ (head_not_blank _hskip) rest) hskip

/-- One round of the loop that finds a pair. -/
theorem logfmtLoop_pair {cs rest after after' value : List Char} {c : Char}
    {fields : List ExtractedField} (hroom : fields.length < MAX_STRUCTURED_FIELDS)
    (hskip : cs.dropWhile isAsciiWhitespace = c :: rest)
    (hkey : (c :: rest).dropWhile (fun c => !isAsciiWhitespace c && c ≠ '=') = '=' :: after)
    (hvalue : logfmtValue after = some (value, after')) :
    logfmtLoop cs fields =
      let key := (c :: rest).takeWhile fun c => !isAsciiWhitespace c && c ≠ '='
      logfmtLoop after' (if key = [] then fields else fields ++ [field key value false]) := by
  rw [logfmtLoop, if_neg (Nat.not_le_of_lt hroom)]
  split
  · rename_i hnil
    rw [hnil] at hskip
    cases hskip
  · rename_i c' rest' hskip'
    rw [hskip] at hskip'
    obtain ⟨rfl, rfl⟩ := List.cons.inj hskip'
    simp only
    split
    · rename_i after₁ hkey'
      rw [hkey] at hkey'
      obtain rfl := (List.cons.inj hkey').2
      split
      · rename_i hnone
        rw [hvalue] at hnone
        cases hnone
      · rename_i value₁ after₂ hsome
        rw [hvalue] at hsome
        cases hsome
        rfl
    · rename_i hother
      exact absurd hkey (hother _)

theorem logfmtLoop_end {cs : List Char} {fields : List ExtractedField}
    (hskip : cs.dropWhile isAsciiWhitespace = []) : logfmtLoop cs fields = .ok fields := by
  rw [logfmtLoop]
  split_ifs
  · rfl
  · split
    · rfl
    · rename_i hcons
      rw [hskip] at hcons
      cases hcons

def logfmtPairs (text : List Char) : Except String (List ExtractedField) := logfmtLoop text []

def structuredFields (fromStr : List Char → Option Json) (text : List Char) :
    Except String (List ExtractedField) :=
  match fromStr text with
  | some (.object entries) => .ok (collectJson (MAX_JSON_DEPTH - 1) [] entries [])
  | _ => logfmtPairs text

end Lvu.Time
