import RecordForge.Proofs.Untouched

/-!
# Recorded answers and typed ones

A recorded file and a stream are cut into lines by two rules, and the rule for the file knows more line ends.
A dialog judges an answer without the blanks around it, and every line end is a blank, so an additional one at
the very end of a file makes no difference. Anywhere else it cuts an answer in two, and all answers after it
come one too late.

* `PlainLines`: a text without additional line ends, but for its last character.
* `length_piecesEndedBy`, `piecesEndedBy_append`: how many lines a text has, and where it may be cut.
* **`trimmed_lines_iff`**: the two rules give the same answers exactly for such texts.
* `Session.Alike`, `Talk.run_alike`, `Request.run_alike`: a run depends on its answers without the blanks around
  them.
* **`replayed_as_typed`**: when replaying answers is the same as typing them.
-/

namespace RecordForge

open Text Dialog

namespace Text

/-! ## Cutting a text -/

section Pieces

variable {ends ends' : Char → Bool} {s t : List Char} {c : Char}

theorem piecesEndedBy_ne_nil (h : s ≠ []) : piecesEndedBy ends s ≠ [] := by
  obtain ⟨c, s, rfl⟩ := List.exists_cons_of_ne_nil h
  rw [piecesEndedBy]
  split
  · exact List.cons_ne_nil _ _
  · split
    · exact List.cons_ne_nil _ _
    · exact List.cons_ne_nil _ _

/-- A character that ends no line belongs to the first piece of what follows it. -/
theorem piecesEndedBy_cons (hc : ends c = false) {p : List Char} {ps : List (List Char)}
    (h : piecesEndedBy ends s = p :: ps) : piecesEndedBy ends (c :: s) = (c :: p) :: ps := by
  rw [piecesEndedBy, hc, h]
  rfl

theorem piecesEndedBy_cons_end (hc : ends c = true) (s : List Char) :
    piecesEndedBy ends (c :: s) = [] :: piecesEndedBy ends s := by
  rw [piecesEndedBy, if_pos hc]

/-- A text may be cut after a line end. -/
theorem piecesEndedBy_append (hc : ends c = true) (s t : List Char) :
    piecesEndedBy ends (s ++ c :: t) = piecesEndedBy ends (s ++ [c]) ++ piecesEndedBy ends t := by
  induction s with
  | nil =>
    rw [List.nil_append, List.nil_append, piecesEndedBy_cons_end hc, piecesEndedBy_cons_end hc]
    rfl
  | cons d s ih =>
    by_cases hd : ends d = true
    · rw [List.cons_append, List.cons_append, piecesEndedBy_cons_end hd, piecesEndedBy_cons_end hd, ih]
      rfl
    · have hsome : piecesEndedBy ends (s ++ [c]) ≠ [] := piecesEndedBy_ne_nil (by simp)
      obtain ⟨p, ps, hps⟩ := List.exists_cons_of_ne_nil hsome
      have hd : ends d = false := by simpa using hd
      have hboth : piecesEndedBy ends (s ++ c :: t) = p :: (ps ++ piecesEndedBy ends t) := by
        rw [ih, hps]
        rfl
      rw [List.cons_append, List.cons_append, piecesEndedBy_cons hd hboth, piecesEndedBy_cons hd hps]
      rfl

/-- A text has a line more than there are line ends before its last character. -/
theorem length_piecesEndedBy (s : List Char) (c : Char) :
    (piecesEndedBy ends (s ++ [c])).length = s.countP ends + 1 := by
  induction s with
  | nil =>
    rw [List.nil_append, piecesEndedBy]
    split <;> rfl
  | cons d s ih =>
    by_cases hd : ends d = true
    · rw [List.cons_append, piecesEndedBy_cons_end hd, List.length_cons, ih, List.countP_cons_of_pos hd]
    · have hsome : piecesEndedBy ends (s ++ [c]) ≠ [] := piecesEndedBy_ne_nil (by simp)
      obtain ⟨p, ps, hps⟩ := List.exists_cons_of_ne_nil hsome
      rw [hps] at ih
      rw [List.cons_append, piecesEndedBy_cons (by simpa using hd) hps, List.countP_cons_of_neg hd, ← ih]
      rfl

/-- Two rules that agree on the characters of a text cut it alike. -/
theorem piecesEndedBy_congr (h : ∀ c ∈ s, ends c = ends' c) : piecesEndedBy ends s = piecesEndedBy ends' s := by
  induction s with
  | nil => rfl
  | cons c s ih =>
    obtain ⟨hc, hs⟩ := List.forall_mem_cons.mp h
    rw [piecesEndedBy, piecesEndedBy, hc, ih hs]

/-- If they agree on all but the last one, which ends a line for one of them only, then the last lines differ
by that character, and no others do. -/
theorem piecesEndedBy_concat (h : ∀ d ∈ s, ends d = ends' d) (hc : ends c = true) (hc' : ends' c = false) :
    ∃ ps p, piecesEndedBy ends (s ++ [c]) = ps ++ [p] ∧ piecesEndedBy ends' (s ++ [c]) = ps ++ [p ++ [c]] := by
  induction s with
  | nil =>
    refine ⟨[], [], ?_, ?_⟩
    · rw [List.nil_append, piecesEndedBy_cons_end hc]
      rfl
    · rw [List.nil_append, piecesEndedBy, hc']
      rfl
  | cons d s ih =>
    obtain ⟨hd, hs⟩ := List.forall_mem_cons.mp h
    obtain ⟨ps, p, hps, hps'⟩ := ih hs
    by_cases hend : ends d = true
    · refine ⟨[] :: ps, p, ?_, ?_⟩
      · rw [List.cons_append, piecesEndedBy_cons_end hend, hps]
        rfl
      · rw [List.cons_append, piecesEndedBy_cons_end (hd ▸ hend), hps']
        rfl
    · have hno : ends d = false := by simpa using hend
      have hno' : ends' d = false := hd ▸ hno
      cases ps with
      | nil => exact ⟨[], d :: p, piecesEndedBy_cons hno hps, piecesEndedBy_cons hno' hps'⟩
      | cons q ps => exact ⟨(d :: q) :: ps, p, piecesEndedBy_cons hno hps, piecesEndedBy_cons hno' hps'⟩

end Pieces

/-! ## Line ends -/

variable {s : List Char} {c : Char}

theorem unifyNewlines_cons (hc : c ≠ '\r') (s : List Char) : unifyNewlines (c :: s) = c :: unifyNewlines s := by
  rw [unifyNewlines]
  · rintro s rfl
    exact absurd rfl hc
  · exact hc

/-- There is no carriage return left where line ends are unified. -/
theorem cr_not_mem_unifyNewlines (s : List Char) : '\r' ∉ unifyNewlines s := by
  fun_induction unifyNewlines s with
  | case1 => exact List.not_mem_nil
  | case2 s ih => simp [ih]
  | case3 s _ ih => simp [ih]
  | case4 c s _ hc ih => simp [ih, Ne.symm hc]

/-- Where there is none, nothing is changed. -/
theorem unifyNewlines_append (h : '\r' ∉ s) (t : List Char) : unifyNewlines (s ++ t) = s ++ unifyNewlines t := by
  induction s with
  | nil => rfl
  | cons c s ih =>
    obtain ⟨hc, hs⟩ := not_or.mp (mt List.mem_cons.mpr h)
    rw [List.cons_append, unifyNewlines_cons (Ne.symm hc), ih hs]
    rfl

/-- Every line end is a blank. -/
theorem isBlank_of_endsRecord (h : endsRecord c = true) : isBlank c = true := by
  simp only [endsRecord, Bool.or_eq_true, beq_iff_eq] at h
  rcases h with (((((((rfl | rfl) | rfl) | rfl) | rfl) | rfl) | rfl) | rfl) | rfl <;> decide

/-- One blank after a text is dropped. -/
theorem trim_concat (hc : isBlank c = true) (s : List Char) : trim (s ++ [c]) = trim s := by
  have hright (t : List Char) : trimRight (t ++ [c]) = trimRight t := by
    rw [trimRight, List.reverse_append, List.reverse_singleton, List.singleton_append,
      List.dropWhile_cons_of_pos hc]
    rfl
  rw [trim, trim, trimLeft, List.dropWhile_append]
  split
  · rename_i hblank
    rw [trimLeft, List.isEmpty_iff.mp hblank, List.dropWhile_cons_of_pos hc]
    rfl
  · exact hright _

/-- A text has no line end but line feeds, except perhaps for its last character. -/
def PlainLines (s : List Char) : Prop := ∀ c ∈ s.dropLast, endsRecord c = true → c = '\n'

instance (s : List Char) : Decidable (PlainLines s) := List.decidableBAll _ s.dropLast

/-- A line feed ends a line by both rules, and the other line ends by one. -/
theorem endsRecord_eq (h : endsRecord c = true → c = '\n') : endsRecord c = (c == '\n') := by
  by_cases hc : c = '\n'
  · rw [hc]
    rfl
  · rw [beq_eq_false_iff_ne.mpr hc]
    simpa using mt h hc

/-- If there are as many line ends by both rules, then they are the same. -/
theorem eq_newline_of_countP (h : s.countP endsRecord = s.countP (· == '\n')) :
    ∀ c ∈ s, endsRecord c = true → c = '\n' := by
  induction s with
  | nil => exact fun _ hc => absurd hc List.not_mem_nil
  | cons d s ih =>
    have hle : s.countP (· == '\n') ≤ s.countP endsRecord := by
      apply List.countP_mono_left
      intro c _ hc
      rw [beq_iff_eq.mp hc]
      rfl
    rw [List.countP_cons, List.countP_cons] at h
    have hd : endsRecord d = true → d = '\n' := by
      intro hend
      by_contra hne
      rw [if_pos hend, if_neg (by simpa using hne)] at h
      omega
    rw [endsRecord_eq hd] at h
    exact List.forall_mem_cons.mpr ⟨hd, ih (by omega)⟩

/-- **The two rules give the same answers exactly for texts of plain lines**, up to the blanks around them. -/
theorem trimmed_lines_iff : (piecesEndedBy endsRecord s).map trim = (piecesEndedBy (· == '\n') s).map trim ↔
    PlainLines s := by
  rcases List.eq_nil_or_concat s with rfl | ⟨s, c, rfl⟩
  · exact ⟨fun _ => nofun, fun _ => rfl⟩
  rw [List.concat_eq_append, PlainLines, List.dropLast_concat]
  constructor
  · intro h
    have hlength := congrArg List.length h
    rw [List.length_map, List.length_map, length_piecesEndedBy, length_piecesEndedBy] at hlength
    exact eq_newline_of_countP (Nat.succ.inj hlength)
  · intro h
    have hagree : ∀ d ∈ s, endsRecord d = (d == '\n') := fun d hd => endsRecord_eq (h d hd)
    by_cases hc : endsRecord c = true → c = '\n'
    · congr 1
      apply piecesEndedBy_congr
      intro d hd
      rcases List.mem_append.mp hd with hd | hd
      · exact hagree d hd
      · rw [List.mem_singleton.mp hd]
        exact endsRecord_eq hc
    · -- the last character ends the last line, or is a blank after it
      obtain ⟨hends, hne⟩ := Classical.not_imp.mp hc
      obtain ⟨ps, p, hps, hps'⟩ := piecesEndedBy_concat hagree hends (beq_eq_false_iff_ne.mpr hne)
      rw [hps, hps', List.map_append, List.map_append, List.map_singleton, List.map_singleton,
        trim_concat (isBlank_of_endsRecord hends)]

/-- A vertical tab within an answer cuts it in two where it is recorded. -/
example : recordLines "in a\x0bb\n".toList = ["in a".toList, "b".toList] ∧
    streamLines "in a\x0bb\n".toList = ["in a\x0bb".toList] := by decide

end Text

/-! ## Answers -/

/-- Answers are judged without the blanks around them. -/
theorem trimmed_ofList (s : List Char) : trimmed (String.ofList s) = String.ofList (trim s) := by
  rw [trimmed, String.toList_ofList]

theorem map_trimmed (ls : List (List Char)) :
    (ls.map String.ofList).map trimmed = (ls.map trim).map String.ofList := by
  rw [List.map_map, List.map_map]
  apply List.map_congr_left
  intro l _
  exact trimmed_ofList l

variable {disk : Disk} {path : Path} {text : List Char} {stream : String}

/-- A file is read with unified line ends. -/
theorem cr_not_mem_text (h : disk.text? path = some text) : '\r' ∉ text := by
  unfold Disk.text? at h
  split at h
  · split at h
    · obtain rfl := Option.some.inj h
      exact cr_not_mem_unifyNewlines _
    · cases h
  · cases h

/-- A file that can be read is there. -/
theorem exists_of_text (h : disk.text? path = some text) : disk.exists path = true := by
  unfold Disk.text? at h
  split at h
  · rename_i p hp
    split at h
    · rename_i s hs
      exact Disk.exists_of_file hp (by rw [hs]; exact Option.some_ne_none _)
    · cases h
  · cases h

/-- The answers of a recorded file, and those typed after it. -/
theorem answersOf_recorded (h : disk.text? path = some text) (stream : String) :
    answersOf disk (some path) stream =
      .ok ((piecesEndedBy endsRecord text).map String.ofList ++ streamAnswers stream) := by
  have hunified : unifyNewlines text = text := by
    have happend := unifyNewlines_append (cr_not_mem_text h) []
    rwa [List.append_nil, unifyNewlines, List.append_nil] at happend
  simp only [answersOf, recordedAnswers, h, recordLines, hunified, Except.map]

/-- The answers that are typed instead, if the file ends where a line does. -/
theorem streamAnswers_append (hcr : '\r' ∉ text)
    (hcut : text = [] ∨ text.getLast? = some '\n' ∨ stream = "") :
    streamAnswers (String.ofList text ++ stream) =
      (piecesEndedBy (· == '\n') text).map String.ofList ++ streamAnswers stream := by
  rw [streamAnswers, streamAnswers, streamLines, streamLines, String.toList_append, String.toList_ofList,
    unifyNewlines_append hcr, ← List.map_append]
  congr 1
  rcases hcut with rfl | hlast | rfl
  · rfl
  · obtain ⟨t, rfl⟩ := List.getLast?_eq_some_iff.mp hlast
    rw [List.append_assoc, List.singleton_append]
    exact piecesEndedBy_append rfl _ _
  · have hempty : unifyNewlines "".toList = [] := rfl
    rw [hempty, List.append_nil]
    exact (List.append_nil _).symm

/-- **Recorded answers are those that would have been typed**, up to the blanks around them, exactly if the
file has plain lines. -/
theorem trimmed_answers_iff (h : disk.text? path = some text)
    (hcut : text = [] ∨ text.getLast? = some '\n' ∨ stream = "") :
    ∃ replayed, answersOf disk (some path) stream = .ok replayed ∧
      (replayed.map trimmed = (streamAnswers (String.ofList text ++ stream)).map trimmed ↔ PlainLines text) := by
  refine ⟨_, answersOf_recorded h stream, ?_⟩
  rw [streamAnswers_append (cr_not_mem_text h) hcut, List.map_append, List.map_append, List.append_left_inj,
    map_trimmed, map_trimmed, ← trimmed_lines_iff]
  constructor
  · intro heq
    exact List.map_injective_iff.mpr (fun _ _ => String.ofList_injective) heq
  · intro heq
    rw [heq]

/-! ## Runs -/

/-- Two sessions of the same events, in which the same answers are left up to the blanks around them. -/
structure Session.Alike (s t : Session) : Prop where
  answers : s.answers.map trimmed = t.answers.map trimmed
  events : s.events = t.events

namespace Dialog.Talk

variable {α : Type}

/-- What an answer makes of a talk, and what is written for it, does not depend on the blanks around it. -/
theorem after_trimmed {x y : String} (h : trimmed x = trimmed y) (t : Talk α) :
    t.after x = t.after y ∧ t.said x = t.said y := by
  cases t with
  | done a => exact ⟨rfl, rfl⟩
  | fail e => exact ⟨rfl, rfl⟩
  | ask q next => simp only [after, said, h, and_self]

/-- **A talk depends on its answers without the blanks around them.** -/
theorem run_alike : ∀ {xs ys : List String} (t : Talk α) (events : List Event),
    xs.map trimmed = ys.map trimmed →
      (t.run.run ⟨xs, events⟩).1 = (t.run.run ⟨ys, events⟩).1 ∧
        (t.run.run ⟨xs, events⟩).2.Alike (t.run.run ⟨ys, events⟩).2
  | xs, ys, .done a, events, h => ⟨rfl, h, rfl⟩
  | xs, ys, .fail e, events, h => ⟨rfl, h, rfl⟩
  | [], [], .ask q next, events, h => ⟨rfl, rfl, rfl⟩
  | x :: xs, y :: ys, .ask q next, events, h => by
    rw [List.map_cons, List.map_cons, List.cons.injEq] at h
    obtain ⟨hafter, hsaid⟩ := after_trimmed h.1 (.ask q next)
    have ih := run_alike ((Talk.ask q next).after y) (events ++ (Talk.ask q next).said y) h.2
    rw [run_step rfl, run_step rfl, hafter, hsaid]
    exact ih

end Dialog.Talk

/-- Two outcomes that are the same, up to the blanks around the answers that are left. -/
structure Outcome.Alike (o o' : Outcome) : Prop where
  result : o.result = o'.result
  session : o.session.Alike o'.session
  disk : o.disk = o'.disk

namespace Request

variable {σ : Type} [Source σ]

/-- **A run depends on its answers without the blanks around them.** -/
theorem run_alike (q : Request σ) (disk : Disk) {s t : Session} (h : s.Alike t) :
    (q.run disk s).Alike (q.run disk t) := by
  obtain ⟨xs, events⟩ := s
  obtain ⟨ys, events'⟩ := t
  obtain rfl : events = events' := h.events
  obtain ⟨hresult, hsession⟩ := Talk.run_alike (q.interview disk) events h.answers
  rcases hx : (q.interview disk).run.run ⟨xs, events⟩ with ⟨r, s⟩
  rcases hy : (q.interview disk).run.run ⟨ys, events⟩ with ⟨r', t⟩
  rw [hx, hy] at hresult hsession
  obtain rfl : r = r' := hresult
  cases r with
  | error e =>
    unfold Request.run
    rw [run_prepare, run_prepare, hx, hy]
    exact ⟨rfl, hsession, rfl⟩
  | ok x =>
    obtain ⟨result, later, files, hrun⟩ := run_of_settled q disk x
    rw [hrun _ _ hx, hrun _ _ hy]
    exact ⟨rfl, ⟨hsession.answers, congrArg (· ++ later) hsession.events⟩, rfl⟩

end Request

/-- Two endings that are the same, up to the blanks around the answers that are left. -/
inductive Ending.Alike : Ending → Ending → Prop where
  | exit {code : Nat} {s t : Session} {reports : List String} {cause : Option Failure} :
    s.Alike t → Alike (.exit code s reports cause) (.exit code t reports cause)
  | same (e : Ending) : Alike e e

namespace World

theorem conclude_alike {o o' : Outcome} (h : o.Alike o') :
    (conclude o).1.Alike (conclude o').1 ∧ (conclude o).2 = (conclude o').2 := by
  obtain ⟨result, s, files⟩ := o
  obtain ⟨result', t, files'⟩ := o'
  obtain ⟨hresult, hsession, hdisk⟩ := h
  obtain rfl : result = result' := hresult
  obtain rfl : files = files' := hdisk
  unfold conclude
  cases result with
  | ok n => exact ⟨.exit hsession, rfl⟩
  | error e =>
    dsimp only
    split
    · exact ⟨.exit hsession, rfl⟩
    · exact ⟨.same _, rfl⟩

/-- What a program is started with if the answers of a file are typed instead. -/
def typing (w : World) (text : List Char) : World := { w with input := String.ofList text ++ w.input }

/-- **Replaying answers is the same as typing them, as long as the file has plain lines.** For a file of
recorded answers that ends where a line does, or after which nothing is typed, the answers are those that
would have been typed, up to the blanks around them, exactly if no character but its last is one of the line
ends that only a recorded file has. A program that replays such a file then ends as one that is given the text
on its stream: with the same code, questions, diagnostics, reports and files, and with every field settled
alike, generators included. -/
theorem replayed_as_typed {w : World} {a : Arguments} {path : String} {text : List Char}
    (hsettings : a.settings = some path) (htext : w.disk.text? (.ofString path) = some text)
    (hfree : w.disk.refusal? (.ofString path) = none)
    (hcut : text = [] ∨ text.getLast? = some '\n' ∨ w.input = "") :
    ∃ replayed, answersOf w.disk (some (.ofString path)) w.input = .ok replayed ∧
      (replayed.map trimmed = (streamAnswers (w.typing text).input).map trimmed ↔ PlainLines text) ∧
      (PlainLines text →
        (∀ {σ : Type} (q : Request σ), ((q.interview w.disk).run.run ⟨replayed, []⟩).1 =
          ((q.interview w.disk).run.run ⟨streamAnswers (w.typing text).input, []⟩).1) ∧
        (w.serve a).1.Alike ((w.typing text).serve { a with settings := none }).1 ∧
        (w.serve a).2 = ((w.typing text).serve { a with settings := none }).2) := by
  obtain ⟨replayed, hreplayed, hiff⟩ := trimmed_answers_iff htext hcut
  refine ⟨replayed, hreplayed, hiff, fun hplain => ?_⟩
  have hsame := hiff.mpr hplain
  have halike : Session.Alike ⟨replayed, []⟩ ⟨streamAnswers (w.typing text).input, []⟩ := ⟨hsame, rfl⟩
  refine ⟨fun q => (Talk.run_alike (q.interview w.disk) [] hsame).1, ?_⟩
  have hexists : w.disk.exists (.ofString path) = true := exists_of_text htext
  have hoptions : (w.typing text).options { a with settings := none } = w.options a := rfl
  unfold serve
  rw [hoptions]
  cases w.options a with
  | error d => exact ⟨.same _, rfl⟩
  | ok options =>
    dsimp only
    split
    · exact ⟨.same _, rfl⟩
    · have hfound : (some (Path.ofString path)).filter (fun p => !w.disk.exists p) = none := by
        simp [hexists]
      rw [hsettings]
      simp only [Option.map_some, Option.map_none, Option.bind_some, Option.bind_none, Option.filter_none,
        hfree, hfound]
      have htyped : answersOf (w.typing text).disk none (w.typing text).input =
          .ok (streamAnswers (w.typing text).input) := rfl
      unfold start
      simp only [hsettings, Option.map_some, Option.map_none, hreplayed, htyped]
      apply conclude_alike
      exact Request.run_alike _ w.disk halike

/-- A program with a file of the first two answers; the others are typed. -/
def guestWorld : World where
  arguments := []
  environment := []
  input := "int\nincr from 5\n"
  disk := { guestDisk with files := (⟨"", ["answers.txt"]⟩, .text "1\r\n 0.0\n") :: guestDisk.files }
  clock := 0

/-- The arguments of that program. -/
def guestArguments : Arguments := { schema := "table.avsc", settings := some "answers.txt" }

/-- Two of four answers are recorded. -/
theorem replayed_as_typed_guests :
    ∃ replayed, answersOf guestWorld.disk (some (.ofString "answers.txt")) guestWorld.input = .ok replayed ∧
      replayed.map trimmed =
        (streamAnswers "1\n 0.0\nint\nincr from 5\n").map trimmed ∧
      (guestWorld.serve guestArguments).1.Alike
        ((guestWorld.typing "1\n 0.0\n".toList).serve { schema := "table.avsc" }).1 := by
  have hsettings : guestArguments.settings = some "answers.txt" := rfl
  have htext : guestWorld.disk.text? (.ofString "answers.txt") = some "1\n 0.0\n".toList := by decide
  have hfree : guestWorld.disk.refusal? (.ofString "answers.txt") = none := by decide
  have hend : "1\n 0.0\n".toList.getLast? = some '\n' := by decide
  have hplain : PlainLines "1\n 0.0\n".toList := by decide
  obtain ⟨replayed, hreplayed, hiff, hsame⟩ :=
    replayed_as_typed hsettings htext hfree (Or.inr (Or.inl hend))
  exact ⟨replayed, hreplayed, hiff.mpr hplain, (hsame hplain).2.1⟩

end World

end RecordForge
