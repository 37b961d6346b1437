import BacktrackRegex.CommandLine.Response

/-!
# The calls that are taken

A call is taken if its arguments are `-E` and a pattern that compiles, alone or with `--steps` and a
number of 64 bits.  Every other call is refused before standard input is looked at.  What follows
the number is not looked at either, so a call with surplus arguments there is taken as well.

* `Decimal` — the texts that stand for a number;
* `parseBelow_eq_ok_iff` — they are the ones that are read as it;
* `Call` — the arguments of a call, `Refused` — what is wrong with other ones;
* `runCommand_decides` — which calls are taken, and what the others are told.
-/

set_option autoImplicit false

namespace BacktrackRegex

/-! ## Numbers -/

/-- The text stands for the number: decimal digits, with a `+` in front of them or not. -/
inductive Decimal (n : Nat) : List Char → Prop
  | plain {digits : List Char} (hSome : digits ≠ []) (hDigits : ∀ c ∈ digits, c.isDigit = true)
    (hValue : decimalValue digits = n) : Decimal n digits
  | signed {digits : List Char} (hSome : digits ≠ []) (hDigits : ∀ c ∈ digits, c.isDigit = true)
    (hValue : decimalValue digits = n) : Decimal n ('+' :: digits)

/-- More digits make no number smaller. -/
theorem le_foldl_digits (n : Nat) (cs : List Char) :
    n ≤ cs.foldl (fun n c => 10 * n + digitValue c) n := by
  induction cs generalizing n with
  | nil => exact Nat.le_refl n
  | cons c cs ih =>
    have := ih (10 * n + digitValue c)
    rw [List.foldl_cons]
    omega

theorem readDigitsBelow_eq_ok_iff {limit n m : Nat} {cs : List Char} :
    readDigitsBelow limit n cs = .ok m ↔
      (∀ c ∈ cs, c.isDigit = true) ∧ cs.foldl (fun n c => 10 * n + digitValue c) n = m ∧
        (cs ≠ [] → m < limit) := by
  induction cs generalizing n with
  | nil => simp [readDigitsBelow]
  | cons c cs ih =>
    rw [readDigitsBelow, List.foldl_cons, List.forall_mem_cons]
    have hGrows := le_foldl_digits (10 * n + digitValue c) cs
    by_cases hDigit : c.isDigit = true
    · rw [if_pos hDigit]
      by_cases hBelow : 10 * n + digitValue c < limit
      · rw [if_pos hBelow, ih]
        constructor
        · rintro ⟨hDigits, hValue, hLast⟩
          refine ⟨⟨hDigit, hDigits⟩, hValue, fun _ => ?_⟩
          cases cs with
          | nil => rwa [← hValue]
          | cons c' cs => exact hLast nofun
        · rintro ⟨⟨-, hDigits⟩, hValue, hLast⟩
          exact ⟨hDigits, hValue, fun _ => hLast nofun⟩
      · rw [if_neg hBelow]
        refine ⟨nofun, ?_⟩
        rintro ⟨-, hValue, hLast⟩
        have := hLast nofun
        omega
    · rw [if_neg hDigit]
      exact ⟨nofun, fun h => absurd h.1.1 hDigit⟩

theorem readDigitsBelow_zero {limit n : Nat} {digits : List Char} (hSome : digits ≠ []) :
    readDigitsBelow limit 0 digits = .ok n ↔
      ((∀ c ∈ digits, c.isDigit = true) ∧ decimalValue digits = n) ∧ n < limit := by
  rw [readDigitsBelow_eq_ok_iff, and_assoc]
  exact and_congr_right' (and_congr_right' ⟨fun h => h hSome, fun h _ => h⟩)

/-- No digit is a sign. -/
theorem decimal_signed_iff {n : Nat} {cs : List Char} :
    Decimal n ('+' :: cs) ↔ cs ≠ [] ∧ (∀ c ∈ cs, c.isDigit = true) ∧ decimalValue cs = n := by
  constructor
  · intro h
    cases h with
    | plain _ hDigits _ => exact absurd (hDigits '+' List.mem_cons_self) (by decide)
    | signed hSome hDigits hValue => exact ⟨hSome, hDigits, hValue⟩
  · rintro ⟨hSome, hDigits, hValue⟩
    exact .signed hSome hDigits hValue

theorem decimal_plain_iff {n : Nat} {cs : List Char} (hSign : ∀ digits, cs ≠ '+' :: digits) :
    Decimal n cs ↔ cs ≠ [] ∧ (∀ c ∈ cs, c.isDigit = true) ∧ decimalValue cs = n := by
  constructor
  · intro h
    cases h with
    | plain hSome hDigits hValue => exact ⟨hSome, hDigits, hValue⟩
    | signed _ _ _ => exact absurd rfl (hSign _)
  · rintro ⟨hSome, hDigits, hValue⟩
    exact .plain hSome hDigits hValue

/-- A text is read as a number below the limit exactly if it stands for one. -/
theorem parseBelow_eq_ok_iff {limit n : Nat} {cs : List Char} :
    parseBelow limit cs = .ok n ↔ Decimal n cs ∧ n < limit := by
  unfold parseBelow
  split
  case h_1 => simp [decimal_plain_iff]
  case h_2 => simp [decimal_signed_iff]
  case h_3 cs hSome =>
    have hSome : cs ≠ [] := by
      rintro rfl
      exact hSome rfl
    rw [readDigitsBelow_zero hSome, decimal_signed_iff, and_iff_right hSome]
  case h_4 cs hSome _ hSign =>
    rw [readDigitsBelow_zero hSome, decimal_plain_iff hSign, and_iff_right hSome]

/-! ## Arguments -/

/-- The arguments of a call with this pattern and with this number of steps, if there is one; then
`surplus` is what follows the number. -/
inductive Call (pattern : String) : List String → Option Nat → List String → Prop
  | unlimited : Call pattern ["-E", pattern] none []
  | limited {value : String} {steps : Nat} (surplus : List String)
    (hNumber : Decimal steps value.toList) (hBound : steps < stepLimitBound) :
    Call pattern ("-E" :: pattern :: "--steps" :: value :: surplus) (some steps) surplus

/-- The arguments are not those of a call, or its pattern does not compile; the message says what is
the first thing wrong with them. -/
inductive Refused : List String → String → Prop
  | noFlag {arguments : List String} (h : ∀ rest, arguments ≠ "-E" :: rest) :
    Refused arguments "Expected first argument to be '-E'"
  | noPattern : Refused ["-E"] "missing pattern after '-E'"
  | noSteps (pattern : String) : Refused ["-E", pattern, "--steps"] "missing value after '--steps'"
  | badSteps {value : String} (pattern : String) (surplus : List String)
    (h : ∀ n < stepLimitBound, ¬ Decimal n value.toList) :
    Refused ("-E" :: pattern :: "--steps" :: value :: surplus) "'--steps' expects a number"
  | unexpected {argument : String} (pattern : String) (rest : List String)
    (h : argument ≠ "--steps") :
    Refused ("-E" :: pattern :: argument :: rest) ("unexpected argument '" ++ argument ++ "'")
  | badPattern {pattern : String} {arguments surplus : List String} {steps : Option Nat}
    {e : CompileError} (hCall : Call pattern arguments steps surplus)
    (hBuild : (Matcher.build pattern { steps }).value = .error e) :
    Refused arguments ("cannot compile pattern '" ++ pattern ++ "'")

namespace Arguments

/-- The arguments of a call are read as that call, whatever follows the number. -/
theorem ofList_of_call {pattern : String} {arguments surplus : List String} {steps : Option Nat}
    (h : Call pattern arguments steps surplus) : ofList arguments = .ok { pattern, steps } := by
  cases h with
  | unlimited => rfl
  | limited surplus hNumber hBound =>
    simp only [ofList, stepsOfList, parseBelow_eq_ok_iff.2 ⟨hNumber, hBound⟩]

/-- Arguments are those of a call, or they are refused. -/
theorem call_or_refused (arguments : List String) :
    (∃ pattern steps surplus, Call pattern arguments steps surplus) ∨
      ∃ e, ofList arguments = .error e ∧ Refused arguments e.message := by
  unfold ofList
  split
  case h_2 hFlag => exact .inr ⟨_, rfl, .noFlag hFlag⟩
  case h_1 rest =>
    rcases rest with _ | ⟨pattern, _ | ⟨argument, rest⟩⟩
    · exact .inr ⟨_, rfl, .noPattern⟩
    · exact .inl ⟨pattern, none, [], .unlimited⟩
    · by_cases hSteps : argument = "--steps"
      · subst hSteps
        rcases rest with _ | ⟨value, surplus⟩
        · exact .inr ⟨_, rfl, .noSteps pattern⟩
        · cases hNumber : parseBelow stepLimitBound value.toList with
          | ok steps =>
            obtain ⟨hDecimal, hBound⟩ := parseBelow_eq_ok_iff.1 hNumber
            exact .inl ⟨pattern, some steps, surplus, .limited surplus hDecimal hBound⟩
          | error cause =>
            refine .inr ⟨.badSteps cause, by simp [stepsOfList, hNumber], ?_⟩
            refine .badSteps pattern surplus fun n hBound hDecimal => ?_
            rw [parseBelow_eq_ok_iff.2 ⟨hDecimal, hBound⟩] at hNumber
            cases hNumber
      · refine .inr ⟨.unexpected argument, ?_, .unexpected pattern rest hSteps⟩
        simp [stepsOfList]

end Arguments

/-! ## Calls -/

/-- The report of a failure begins with its message. -/
theorem Report.render_prefix (r : Report) :
    ("Error: " ++ r.message).toList <+: r.render.toList := by
  unfold Report.render
  split <;> simp [List.append_assoc]

/-- A call with a pattern that compiles is taken: its answer is that of the matcher to standard
input.  All other arguments are refused, whatever standard input holds, with a report that begins
with what is wrong with them.  Arguments behind the number of steps have no part in that: with them
a call is answered as without. -/
theorem runCommand_decides (arguments : List String) :
    (∀ pattern steps surplus m, Call pattern arguments steps surplus →
      (Matcher.build pattern { steps }).value = .ok m →
      ∀ input, runCommand arguments input = respond m input) ∧
    ((∀ pattern steps surplus m, Call pattern arguments steps surplus →
        (Matcher.build pattern { steps }).value ≠ .ok m) →
      ∃ message stderr, Refused arguments message ∧
        ("Error: " ++ message).toList <+: stderr.toList ∧
        ∀ input, runCommand arguments input = .ok ⟨1, "", stderr⟩) ∧
    ∀ pattern steps surplus, Call pattern arguments steps surplus →
      ∃ plain, Call pattern plain steps [] ∧ runCommand arguments = runCommand plain := by
  refine ⟨?_, ?_, ?_⟩
  · intro pattern steps surplus m hCall hBuild input
    simp only [runCommand, prepare, Arguments.ofList_of_call hCall, hBuild]
  · intro hNone
    obtain ⟨report, hRefused, hPrepare⟩ :
        ∃ report : Report, Refused arguments report.message ∧
          prepare arguments = .error report := by
      rcases Arguments.call_or_refused arguments with
        ⟨pattern, steps, surplus, hCall⟩ | ⟨e, hError, hRefused⟩
      · cases hBuild : (Matcher.build pattern { steps }).value with
        | ok m => exact absurd hBuild (hNone pattern steps surplus m hCall)
        | error e =>
          refine ⟨⟨_, some e.message⟩, .badPattern hCall hBuild, ?_⟩
          simp only [prepare, Arguments.ofList_of_call hCall, hBuild]
      · refine ⟨⟨e.message, e.cause?⟩, hRefused, ?_⟩
        simp only [prepare, hError]
    refine ⟨report.message, report.render, hRefused, report.render_prefix, fun input => ?_⟩
    rw [runCommand, hPrepare]
    rfl
  · intro pattern steps surplus hCall
    have hPlain : ∃ plain, Call pattern plain steps [] := by
      cases hCall with
      | unlimited => exact ⟨_, .unlimited⟩
      | limited _ hNumber hBound => exact ⟨_, .limited [] hNumber hBound⟩
    obtain ⟨plain, hPlain⟩ := hPlain
    refine ⟨plain, hPlain, funext fun input => ?_⟩
    simp only [runCommand, prepare, Arguments.ofList_of_call hCall,
      Arguments.ofList_of_call hPlain]

/-- A call with a signed number is taken although more follows; a negative number is refused. -/
theorem runCommand_decides_signed :
    (∃ m, Call "a" ["-E", "a", "--steps", "+50", "more"] (some 50) ["more"] ∧
      (Matcher.build "a" { steps := some 50 }).value = .ok m ∧
      runCommand ["-E", "a", "--steps", "+50", "more"] [97, newline] = respond m [97, newline] ∧
      ∃ plain, Call "a" plain (some 50) [] ∧
        runCommand ["-E", "a", "--steps", "+50", "more"] = runCommand plain) ∧
    ∃ message stderr, Refused ["-E", "a", "--steps", "-7"] message ∧
      ("Error: " ++ message).toList <+: stderr.toList ∧
      runCommand ["-E", "a", "--steps", "-7"] [] = .ok ⟨1, "", stderr⟩ := by
  constructor
  · have hNumber : parseBelow stepLimitBound "+50".toList = .ok 50 := rfl
    obtain ⟨hDecimal, hBound⟩ := parseBelow_eq_ok_iff.1 hNumber
    have hCall : Call "a" ["-E", "a", "--steps", "+50", "more"] (some 50) ["more"] :=
      .limited ["more"] hDecimal hBound
    have hBuilt : (Matcher.build "a" { steps := some 50 }).value.toOption.isSome = true := by
      decide +kernel
    obtain ⟨m, hSome⟩ := Option.isSome_iff_exists.1 hBuilt
    have hBuild := toOption_eq_some_iff.1 hSome
    obtain ⟨hTaken, -, hSurplus⟩ := runCommand_decides ["-E", "a", "--steps", "+50", "more"]
    exact ⟨m, hCall, hBuild, hTaken _ _ _ m hCall hBuild _, hSurplus _ _ _ hCall⟩
  · have hNegative : parseBelow stepLimitBound "-7".toList = .error .invalidDigit := rfl
    obtain ⟨-, hRefused, -⟩ := runCommand_decides ["-E", "a", "--steps", "-7"]
    have hNone : ∀ pattern steps surplus m,
        Call pattern ["-E", "a", "--steps", "-7"] steps surplus →
        (Matcher.build pattern { steps }).value ≠ .ok m := by
      intro pattern steps surplus m hCall
      cases hCall with
      | limited _ hNumber hBound =>
        rw [parseBelow_eq_ok_iff.2 ⟨hNumber, hBound⟩] at hNegative
        cases hNegative
    obtain ⟨message, stderr, hMessage, hReport, hRun⟩ := hRefused hNone
    exact ⟨message, stderr, hMessage, hReport, hRun []⟩

/-- Not all arguments but those of a documented call are refused: one too many behind the number of
steps goes unnoticed. -/
theorem runCommand_surplus_unnoticed :
    ¬ ∀ arguments, (∃ pattern, arguments = ["-E", pattern]) ∨
      (∃ pattern value, arguments = ["-E", pattern, "--steps", value]) ∨
      ∃ stderr, "Error:".toList <+: stderr.toList ∧
        ∀ input, runCommand arguments input = .ok ⟨1, "", stderr⟩ := by
  intro h
  have hRun : runCommand ["-E", "a", "--steps", "50", "surplus"] [97, newline] =
      .ok ⟨0, "0: a\n", ""⟩ :=
    toOption_eq_some_iff.1 (by decide +kernel)
  rcases h ["-E", "a", "--steps", "50", "surplus"] with ⟨_, h⟩ | ⟨_, _, h⟩ | ⟨stderr, -, h⟩
  · simp at h
  · simp at h
  · rw [h] at hRun
    simp at hRun

end BacktrackRegex
