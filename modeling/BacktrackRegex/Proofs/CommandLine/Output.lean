import BacktrackRegex.CommandLine.Response
import BacktrackRegex.Proofs.Captures.Faults
import BacktrackRegex.Proofs.Matcher.Agreement

/-!
# What can be read off the output

A call writes the captures of a match to standard output, one line for each.  The line that is
matched has no line end in it, and neither has any part of it.  So a line end in the output ends the
line of a capture, and the captures can be read back.  What comes after the first line of standard
input is not looked at.

* `FirstLine` — what a call looks at; `Options` — the arguments that it is called with;
* `resolve_infix`, `Matcher.captures_infix` — captures are parts of the text;
* `captureLines_toList`, `readBack_captureLines` — the lines of the output, and what they hold;
* `Response.Reports`, `runCommand_reports` — a call tells of the captures and of nothing else.
-/

set_option autoImplicit false

namespace BacktrackRegex

/-! ## Input -/

/-- The bytes of a text. -/
def utf8Bytes (text : String) : List UInt8 := text.toList.flatMap String.utf8EncodeChar

/-- The input begins with these bytes, and then ends or goes on with a line end. -/
structure FirstLine (line input : List UInt8) : Prop where
  whole : newline ∉ line
  ends : input = line ∨ ∃ rest, input = line ++ newline :: rest

theorem FirstLine.takeWhile_eq {line input : List UInt8} (h : FirstLine line input) :
    input.takeWhile (· != newline) = line := by
  have hWhole : ∀ b ∈ line, (b != newline) = true := by
    intro b hb
    have hOther : b ≠ newline := fun hEq => h.whole (hEq ▸ hb)
    simpa using hOther
  rcases h.ends with rfl | ⟨rest, rfl⟩
  · have hAll : (input ++ []).takeWhile (· != newline) = input ++ [].takeWhile (· != newline) :=
      List.takeWhile_append_of_pos hWhole
    rwa [List.append_nil, List.takeWhile_nil, List.append_nil] at hAll
  · rw [List.takeWhile_append_of_pos hWhole, List.takeWhile_cons_of_neg (by simp), List.append_nil]

theorem toByteArray_eq (text : String) : text.toByteArray = ⟨(utf8Bytes text).toArray⟩ := by
  rw [← String.utf8Encode_toList, ← List.data_toByteArray]
  rfl

theorem FirstLine.firstLine?_eq {text : String} {input : List UInt8}
    (h : FirstLine (utf8Bytes text) input) : firstLine? input = some text := by
  rw [firstLine?, h.takeWhile_eq, ← toByteArray_eq, String.fromUTF8?, dif_pos text.isValidUTF8]
  rfl

/-- A text whose bytes are a line has no line end. -/
theorem FirstLine.newline_not_mem {text : String} {input : List UInt8}
    (h : FirstLine (utf8Bytes text) input) : '\n' ∉ text.toList := by
  intro hMem
  exact h.whole (List.mem_flatMap.2 ⟨'\n', hMem, by decide⟩)

/-! ## Captures -/

theorem Span.text_infix (s : Span) (text : Array Char) :
    (s.text text).toList <:+: text.toList := by
  rw [Span.text, String.toList_ofList]
  exact (List.take_prefix _ _).isInfix.trans (List.drop_suffix _ _).isInfix

theorem spanTexts_infix {text : Array Char} {spans : List (Option Span)} {e : String}
    (h : some e ∈ spanTexts text spans) : e.toList <:+: text.toList := by
  obtain ⟨entry, -, hText⟩ := List.mem_map.1 h
  obtain ⟨s, -, rfl⟩ := Option.map_eq_some_iff.1 hText
  exact s.text_infix text

theorem eq_spanTexts {text : Array Char} {spans : List (Option Span)}
    {entries : List (Option String)} (h : sliceEntries text spans = .ok entries) :
    entries = spanTexts text spans := by
  by_cases hInside : ∀ s, some s ∈ spans → s.stop ≤ text.size
  · rw [sliceEntries_eq hInside] at h
    exact (Except.ok.inj h).symm
  · rw [sliceEntries_of_outside hInside] at h
    cases h

theorem mem_trim {entries : List (Option String)} {e : String} (h : some e ∈ trim entries) :
    some e ∈ entries ∨ e = "" := by
  have hSub (entry : Option String) (hEntry : entry ∈ dropTrailingAbsent entries) :
      entry ∈ entries := by
    rw [dropTrailingAbsent, List.mem_reverse] at hEntry
    exact List.mem_reverse.1 ((List.dropWhile_sublist _).mem hEntry)
  unfold trim at h
  split at h
  · cases h
  · rename_i whole groups hKept
    rw [hKept] at hSub
    rcases List.mem_cons.1 h with hWhole | hGroup
    · exact .inl (hSub _ (hWhole ▸ List.mem_cons_self))
    · obtain ⟨entry, hMem, hText⟩ := List.mem_map.1 hGroup
      cases entry with
      | none => exact .inr (Option.some.inj hText).symm
      | some text => exact .inl (hText ▸ hSub _ (List.mem_cons_of_mem _ hMem))

/-- All entries of a capture list are there, and are parts of the text. -/
theorem resolve_infix {r : Regex} {t : Trace} {text : Array Char} {entries : List (Option String)}
    (h : resolve r t text = .ok entries) :
    ∀ entry ∈ entries, ∃ e, entry = some e ∧ e.toList <:+: text.toList := by
  unfold resolve at h
  split at h
  · cases h
  · rename_i spans hSpans
    split at h
    · split at h
      · cases h
      · rename_i sliced hSliced
        cases h
        obtain rfl := eq_spanTexts hSliced
        obtain ⟨-, -, -, hPresent⟩ := trim_some_cons (t.span.text text) (spanTexts text spans)
        intro entry hEntry
        obtain ⟨e, rfl⟩ := Option.ne_none_iff_exists'.1 (hPresent entry hEntry)
        refine ⟨e, rfl, ?_⟩
        rcases mem_trim hEntry with hMem | rfl
        · exact spanTexts_infix hMem
        · exact List.nil_infix
    · cases h

namespace Matcher

variable {m : Matcher} {text : String} {c : Captures} {log : List LogRecord}

theorem tryCaptures_infix {limits : Limits}
    (h : m.tryCaptures text limits = .ok ⟨.ok (some c), log⟩) :
    ∀ entry ∈ c.entries, ∃ e, entry = some e ∧ e.toList <:+: text.toList := by
  unfold tryCaptures at h
  dsimp only at h
  split at h
  · cases h
  · cases h
  · cases h
  · split at h
    · cases h
    · rename_i hResolve
      cases h
      exact resolve_infix hResolve

theorem captures_infix (h : m.captures text = .ok ⟨some c, log⟩) :
    ∀ entry ∈ c.entries, ∃ e, entry = some e ∧ e.toList <:+: text.toList := by
  unfold captures at h
  split at h
  · cases h
  · rename_i hTried
    cases h
    exact tryCaptures_infix hTried
  · cases h

end Matcher

/-! ## Output -/

/-- The line of a capture, without its end. -/
def captureLine (i : Nat) (text : String) : List Char := (toString i ++ ": " ++ text).toList

/-- The lines of captures, from number `i` on. -/
def outputLines (i : Nat) : List (Option String) → List (List Char)
  | [] => []
  | entry :: entries => captureLine i (entry.getD "") :: outputLines (i + 1) entries

/-- The captures that the lines of an output hold, each behind a colon and a blank. -/
def readBack (stdout : String) : List (Option String) :=
  (stdout.toList.splitOn '\n').dropLast.map fun line =>
    some (String.ofList ((line.dropWhile (· != ':')).drop 2))

theorem captureLines_toList (i : Nat) (entries : List (Option String)) :
    (captureLines i entries).toList = (outputLines i entries).flatMap (· ++ ['\n']) := by
  induction entries generalizing i with
  | nil => rfl
  | cons entry entries ih =>
    rw [captureLines, outputLines, List.flatMap_cons, ← ih (i + 1), String.toList_append,
      String.toList_append]
    rfl

theorem outputLines_getElem? (i k : Nat) (entries : List (Option String)) :
    (outputLines i entries)[k]? =
      entries[k]?.map fun entry => captureLine (i + k) (entry.getD "") := by
  induction entries generalizing i k with
  | nil => rfl
  | cons entry entries ih =>
    cases k with
    | zero => rfl
    | succ k =>
      rw [outputLines, List.getElem?_cons_succ, ih (i + 1) k, List.getElem?_cons_succ,
        Nat.add_right_comm, Nat.add_assoc]

theorem outputLines_length (i : Nat) (entries : List (Option String)) :
    (outputLines i entries).length = entries.length := by
  induction entries generalizing i with
  | nil => rfl
  | cons entry entries ih => rw [outputLines, List.length_cons, List.length_cons, ih (i + 1)]

/-- Lines without a line end inside them are split apart again. -/
theorem splitOn_lines {lines : List (List Char)} (h : ∀ line ∈ lines, '\n' ∉ line) :
    (lines.flatMap (· ++ ['\n'])).splitOn '\n' = lines ++ [[]] := by
  induction lines with
  | nil => rfl
  | cons line lines ih =>
    have hLine := List.splitOn_eq_singleton (h line List.mem_cons_self)
    have hLines := ih fun other hOther => h other (List.mem_cons_of_mem line hOther)
    rw [List.flatMap_cons, List.append_assoc, List.singleton_append, List.splitOn_append_cons_self,
      hLine, hLines]
    rfl

theorem captureLine_eq (i : Nat) (text : String) :
    captureLine i text = Nat.toDigits 10 i ++ ':' :: ' ' :: text.toList := by
  rw [captureLine, Nat.toString_eq_repr, String.toList_append, String.toList_append,
    Nat.toList_repr, List.append_assoc]
  rfl

theorem newline_not_mem_captureLine {i : Nat} {text : String} (h : '\n' ∉ text.toList) :
    '\n' ∉ captureLine i text := by
  rw [captureLine_eq]
  intro hMem
  rcases List.mem_append.1 hMem with hDigit | hMem
  · have hFalse : '\n'.isDigit = true :=
      Nat.isDigit_of_mem_toDigits (by decide) (by decide) hDigit
    cases hFalse
  · simp only [List.mem_cons] at hMem
    rcases hMem with hColon | hBlank | hText
    · exact absurd hColon (by decide)
    · exact absurd hBlank (by decide)
    · exact h hText

/-- The text of a capture is what its line has behind the colon and the blank. -/
theorem drop_captureLine (i : Nat) (text : String) :
    ((captureLine i text).dropWhile (· != ':')).drop 2 = text.toList := by
  have hDigits : ∀ d ∈ Nat.toDigits 10 i, (d != ':') = true := by
    intro d hd
    have hDigit : d.isDigit = true := Nat.isDigit_of_mem_toDigits (by decide) (by decide) hd
    have hColon : d ≠ ':' := by
      rintro rfl
      cases hDigit
    simpa using hColon
  rw [captureLine_eq, List.dropWhile_append_of_pos hDigits]
  rfl

theorem outputLines_not_mem {entries : List (Option String)}
    (h : ∀ entry ∈ entries, '\n' ∉ (entry.getD "").toList) (i : Nat) :
    ∀ line ∈ outputLines i entries, '\n' ∉ line := by
  induction entries generalizing i with
  | nil => simp [outputLines]
  | cons entry entries ih =>
    intro line hLine
    rcases List.mem_cons.1 hLine with rfl | hLater
    · exact newline_not_mem_captureLine (h entry List.mem_cons_self)
    · exact ih (fun other hOther => h other (List.mem_cons_of_mem entry hOther)) (i + 1) line hLater

/-- Captures that are all there, and hold no line ends, can be read back from their lines. -/
theorem readBack_captureLines {stdout : String} {entries : List (Option String)}
    (hPresent : ∀ entry ∈ entries, ∃ e, entry = some e ∧ '\n' ∉ e.toList)
    (hOut : stdout = captureLines 0 entries) : readBack stdout = entries := by
  have hWhole : ∀ entry ∈ entries, '\n' ∉ (entry.getD "").toList := by
    intro entry hEntry
    obtain ⟨e, rfl, he⟩ := hPresent entry hEntry
    exact he
  rw [readBack, hOut, captureLines_toList, splitOn_lines (outputLines_not_mem hWhole 0),
    List.dropLast_concat]
  apply List.ext_getElem?
  intro k
  rw [List.getElem?_map, outputLines_getElem?, Option.map_map]
  cases hEntry : entries[k]? with
  | none => rfl
  | some entry =>
    obtain ⟨e, rfl, -⟩ := hPresent entry (List.mem_of_getElem? hEntry)
    show some (some (String.ofList (((captureLine (0 + k) e).dropWhile (· != ':')).drop 2))) = _
    rw [drop_captureLine, String.ofList_toList]

/-! ## Calls -/

/-- The arguments with which a pattern is matched within the limits: without a number of steps, or
with one of 64 bits. -/
inductive Options : List String → String → Limits → Prop
  | unlimited (pattern : String) : Options ["-E", pattern] pattern .unlimited
  | limited {value : String} {steps : Nat} (pattern : String)
    (h : parseBelow stepLimitBound value.toList = .ok steps) :
    Options ["-E", pattern, "--steps", value] pattern (Limits.unlimited.withSteps steps)

/-- The response of a call whose line was matched with these captures, or not: a match ends with
exit code 0 and one line for each capture, from which the captures can be read back. -/
structure Response.Reports (response : Response) (found : Option Captures) : Prop where
  exitCode_iff : response.exitCode = 0 ↔ ∃ c, found = some c
  lines : ∀ c, found = some c → ∃ lines : List (List Char),
    response.stdout.toList = lines.flatMap (· ++ ['\n']) ∧ lines.length = c.size ∧
      ∀ i < c.size, ∃ text, c.get? i = some text ∧ '\n' ∉ text.toList ∧
        lines[i]? = some (toString i ++ ": " ++ text).toList
  readBack : ∀ c, found = some c → readBack response.stdout = c.entries
  mismatched : found = none → response.exitCode = 1 ∧ response.stdout = ""
  stderr : response.stderr = ""

variable {arguments : List String} {pattern text : String} {limits : Limits} {m : Matcher}

theorem Options.prepare_eq (h : Options arguments pattern limits)
    (hBuild : (Matcher.build pattern limits).value = .ok m) : prepare arguments = .ok m := by
  cases h with
  | unlimited =>
    have hBuild' : (Matcher.build pattern { steps := none }).value = .ok m := hBuild
    simp [prepare, Arguments.ofList, Arguments.stepsOfList, hBuild']
  | @limited value steps _ h =>
    have hBuild' : (Matcher.build pattern { steps := some steps }).value = .ok m := hBuild
    simp [prepare, Arguments.ofList, Arguments.stepsOfList, h, hBuild']

theorem respond_reports {input : List UInt8} (hLine : FirstLine (utf8Bytes text) input)
    {found : Logged (Option Captures)} (h : m.captures text = .ok found) :
    ∃ response, respond m input = .ok response ∧ response.Reports found.value := by
  obtain ⟨_ | c, log⟩ := found
  · refine ⟨⟨1, "", ""⟩, ?_, ?_⟩
    · rw [respond, hLine.firstLine?_eq]
      simp only [h]
    · constructor <;> simp
  · have hPresent : ∀ entry ∈ c.entries, ∃ e, entry = some e ∧ '\n' ∉ e.toList := by
      intro entry hEntry
      obtain ⟨e, rfl, hInfix⟩ := Matcher.captures_infix h entry hEntry
      exact ⟨e, rfl, fun hMem => hLine.newline_not_mem (hInfix.subset hMem)⟩
    refine ⟨⟨0, captureLines 0 c.entries, ""⟩, ?_, ?_⟩
    · rw [respond, hLine.firstLine?_eq]
      simp only [h]
    · constructor
      case lines =>
        rintro _ ⟨⟩
        refine ⟨outputLines 0 c.entries, captureLines_toList 0 c.entries, ?_⟩
        refine ⟨outputLines_length 0 c.entries, ?_⟩
        intro i hi
        have hEntry : c.entries[i]? = some c.entries[i] := List.getElem?_eq_getElem hi
        obtain ⟨e, he, hWhole⟩ := hPresent c.entries[i] (List.getElem_mem hi)
        rw [he] at hEntry
        refine ⟨e, by rw [Captures.get?, hEntry]; rfl, hWhole, ?_⟩
        rw [outputLines_getElem?, hEntry, Nat.zero_add]
        rfl
      case readBack =>
        rintro _ ⟨⟩
        exact readBack_captureLines hPresent rfl
      all_goals simp

/-- A call tells of the captures of its line, and of nothing else.  It responds whenever the matcher
answers, as it does if no number leaves its word, and its response reports what the matcher has
found, so that the captures can be read back from standard output.  Inputs with the same first line
are not told apart, whatever comes after it and whether or not it is UTF-8. -/
theorem runCommand_reports (hOptions : Options arguments pattern limits)
    (hBuild : (Matcher.build pattern limits).value = .ok m) :
    (∀ text input, FirstLine (utf8Bytes text) input →
      (m.NumbersFit text limits → ∃ found, m.captures text = .ok found) ∧
      (∀ found, m.captures text = .ok found →
        ∃ response, runCommand arguments input = .ok response ∧ response.Reports found.value) ∧
      ∀ f, m.captures text = .error f → runCommand arguments input = .error f) ∧
    ∀ line input input', FirstLine line input → FirstLine line input' →
      runCommand arguments input = runCommand arguments input' := by
  have hPrepare := hOptions.prepare_eq hBuild
  have hRun (input : List UInt8) : runCommand arguments input = respond m input := by
    rw [runCommand, hPrepare]
  refine ⟨fun text input hLine => ⟨fun hFits => ?_, fun found hFound => ?_, fun f hFault => ?_⟩, ?_⟩
  · obtain ⟨-, rfl⟩ := Matcher.build_fields hBuild
    obtain ⟨answer, hAnswer⟩ := Matcher.exists_concludes hBuild hFits
    obtain ⟨-, found, -, -, -, hFound, -⟩ := hAnswer.callsAgree
    exact ⟨found, hFound⟩
  · rw [hRun]
    exact respond_reports hLine hFound
  · rw [hRun, respond, hLine.firstLine?_eq]
    simp only [hFault]
  · intro line input input' hLine hLine'
    rw [hRun, hRun, respond, respond, firstLine?, firstLine?, hLine.takeWhile_eq,
      hLine'.takeWhile_eq]

/-- The pattern `(é)|(b)` and at most a thousand steps, on a first line `bc` that a byte follows
which is not UTF-8. -/
theorem runCommand_reports_branch :
    ∃ m found response,
      Options ["-E", "(é)|(b)", "--steps", "+1000"] "(é)|(b)" (Limits.unlimited.withSteps 1000) ∧
      (Matcher.build "(é)|(b)" (Limits.unlimited.withSteps 1000)).value = .ok m ∧
      FirstLine (utf8Bytes "bc") [98, 99, newline, 255] ∧
      m.NumbersFit "bc" (Limits.unlimited.withSteps 1000) ∧ m.captures "bc" = .ok found ∧
      runCommand ["-E", "(é)|(b)", "--steps", "+1000"] [98, 99, newline, 255] = .ok response ∧
      response.Reports found.value ∧ response.stdout = "0: b\n1: \n2: b\n" := by
  have hOptions : Options ["-E", "(é)|(b)", "--steps", "+1000"] "(é)|(b)"
      (Limits.unlimited.withSteps 1000) := .limited "(é)|(b)" (by decide)
  have hLine : FirstLine (utf8Bytes "bc") [98, 99, newline, 255] :=
    ⟨by decide, .inr ⟨[255], by decide⟩⟩
  have hResponse : runCommand ["-E", "(é)|(b)", "--steps", "+1000"] [98, 99, newline, 255] =
      .ok ⟨0, "0: b\n1: \n2: b\n", ""⟩ := by
    decide +kernel
  have hQuantifiers : (Matcher.build "(é)|(b)"
      (Limits.unlimited.withSteps 1000)).value.toOption.map (fun m => m.regex.quantifiers) =
        some [.once, .once, .once, .once] := by
    decide +kernel
  obtain ⟨m, hBuild, hQuantifiers⟩ := Option.map_eq_some_iff.1 hQuantifiers
  have hBuild := toOption_eq_some_iff.1 hBuild
  obtain ⟨r, hProgram, -⟩ := Matcher.build_spec hBuild
  have hCounts : m.CountsFit "bc" := by
    rw [Matcher.CountsFit, hQuantifiers]
    decide
  have hSteps : m.StepsFit "bc" (Limits.unlimited.withSteps 1000) :=
    Matcher.stepsFit_of_limit rfl (by decide)
  have hFits := Matcher.not_overflows_of_fit hProgram hSteps hCounts
  obtain ⟨hAnswers, hReports, -⟩ := (runCommand_reports hOptions hBuild).1 "bc" _ hLine
  obtain ⟨found, hFound⟩ := hAnswers hFits
  obtain ⟨response, hRun, hReports⟩ := hReports found hFound
  cases hResponse.symm.trans hRun
  exact ⟨m, found, _, hOptions, hBuild, hLine, hFits, hFound, hResponse, hReports, rfl⟩

end BacktrackRegex
