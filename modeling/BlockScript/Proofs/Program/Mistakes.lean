import BlockScript.Program.Check
import BlockScript.Proofs.Drawing.Messages
import BlockScript.Proofs.Script.Tokens
import Mathlib.Algebra.Ring.Nat

namespace BlockScript

/-! # Mistakes

A mistake of a script reaches the user in three ways: a check lists it with its place, a run shows
it as an event, and a canvas keeps its message. All three read the same commands in the same order,
so they tell of the same mistakes, and a check fails exactly when a run would show one.
-/

/-! ## Problems -/

namespace Script

/-- The problem of a token that is not understood, at the place of the token. -/
def problemAt (o : Occurrence) : Option Problem :=
  match Token.parse o.text with
  | some (.mistake message) => some ⟨.after o.before, message⟩
  | _ => none

theorem problemAt_eq_some {o : Occurrence} {p : Problem} :
    problemAt o = some p ↔
      Token.parse o.text = some (.mistake p.message) ∧ p.place = .after o.before := by
  obtain ⟨place, message⟩ := p
  unfold problemAt
  split
  · next hparse =>
    rw [hparse]
    simp [and_comm, eq_comm]
  · next hother =>
    simp only [reduceCtorEq, false_iff]
    rintro ⟨hparse, -⟩
    exact hother message hparse

/-- The problems of a script are those of its tokens, in order. -/
theorem problems_eq (source : List Char) :
    problems source = (tokens source).filterMap problemAt := by
  rw [problems, spannedCommands_eq, List.filterMap_filterMap]
  congr 1
  funext o
  rw [commandAt, problemAt]
  rcases Token.parse o.text with _ | command
  · rfl
  · cases command <;> rfl

/-- A problem stands where its token does, and tells why this token is not understood. -/
theorem mem_problems {p : Problem} {source : List Char} (h : p ∈ problems source) :
    ∃ before token after, source = before ++ token ++ after ∧
      p.place = .after before ∧ Token.parse token = some (.mistake p.message) := by
  rw [problems_eq, List.mem_filterMap] at h
  obtain ⟨o, ho, hproblem⟩ := h
  obtain ⟨hparse, hplace⟩ := problemAt_eq_some.mp hproblem
  obtain ⟨after, hsource⟩ := (within_of_mem_tokens ho).exists_eq
  exact ⟨o.before, o.text, after, hsource, hplace, hparse⟩

/-- A check finds the mistakes that a run shows. -/
theorem map_message_problems (source : List Char) :
    (problems source).map (·.message) = messages source := by
  rw [messages_eq, problems, commands, List.map_filterMap, List.filterMap_map]
  congr 1
  funext c
  cases h : c.command <;> simp [h, Command.mistake?]

theorem length_problems (source : List Char) :
    (problems source).length = (messages source).length := by
  rw [← map_message_problems, List.length_map]

/-- The mistakes of all sources. -/
def mistakeCount (sources : List (List Char)) : Nat :=
  (sources.map fun source => (messages source).length).sum

theorem mistakeCount_eq_zero_iff {sources : List (List Char)} :
    mistakeCount sources = 0 ↔ ∀ source ∈ sources, messages source = [] := by
  rw [mistakeCount, List.sum_eq_zero_iff_forall_eq_nat]
  simp

/-- There is a mistake exactly when some source shows an error. -/
theorem mistakeCount_ne_zero_iff {sources : List (List Char)} :
    mistakeCount sources ≠ 0 ↔
      ∃ source ∈ sources, ∃ message, Event.error message ∈ (events source).toList := by
  rw [ne_eq, mistakeCount_eq_zero_iff]
  constructor
  · intro h
    by_contra hnone
    refine h fun source hsource => List.eq_nil_iff_forall_not_mem.mpr fun message hmessage => ?_
    exact hnone ⟨source, hsource, message, mem_messages.mp hmessage⟩
  · rintro ⟨source, hsource, message, hmessage⟩ h
    have hmem := mem_messages.mpr hmessage
    rw [h source hsource] at hmem
    cases hmem

end Script

/-! ## Checks -/

namespace Session

/-- Checking a script leaves all scripts as they are. -/
theorem checkScript_of_readScript {s : Session} {script : Path} {source : List Char}
    (h : s.readScript script = .ok source) :
    ∃ t : Session, t.readScript = s.readScript ∧
      s.checkScript script = (t, .ok (Script.problems source)) := by
  refine ⟨(s.note (Script.log source)).tellAll
    ((Script.problems source).map fun p => .problem script p.place p.message), rfl, ?_⟩
  rw [checkScript, h]

/-- Checking readable scripts counts the mistakes of all of them. -/
theorem checkScripts_of_readScript {s : Session} {scripts : List Path}
    {sources : List (List Char)} (h : scripts.map s.readScript = sources.map .ok) :
    (s.checkScripts scripts).2 = .ok (Script.mistakeCount sources) := by
  induction scripts generalizing s sources with
  | nil =>
    cases sources with
    | nil => rfl
    | cons source sources => cases h
  | cons script scripts ih =>
    cases sources with
    | nil => cases h
    | cons source sources =>
      simp only [List.map_cons, List.cons.injEq] at h
      -- the scripts that are left read the same after the first one is checked
      obtain ⟨t, hfiles, hcheck⟩ := checkScript_of_readScript h.1
      have hrest : scripts.map t.readScript = sources.map .ok := by rw [hfiles, h.2]
      have hcount := ih hrest
      rw [checkScripts, hcheck]
      cases hscripts : t.checkScripts scripts with
      | mk u result =>
        rw [hscripts] at hcount
        simp only at hcount
        simp only [hscripts, hcount, Script.length_problems]
        rfl

/-- A check of readable scripts passes when there are no mistakes, and fails with their number
otherwise. -/
theorem check_of_readScript {s : Session} {m : Manifest} {paths : List Path}
    {sources : List (List Char)} (h : (s.findScripts m paths).map s.readScript = sources.map .ok) :
    (s.check m paths).2 =
      if Script.mistakeCount sources = 0 then .ok ()
      else .error (.problems (Script.mistakeCount sources) sources.length) := by
  have hlength : (s.findScripts m paths).length = sources.length := by
    simpa using congrArg List.length h
  have hcount : ((s.note [.scriptsFound (s.findScripts m paths).length]).checkScripts
      (s.findScripts m paths)).2 = .ok (Script.mistakeCount sources) :=
    checkScripts_of_readScript h
  rw [check]
  -- a check ends with the count: none passes, any other is the fault
  cases hscripts : (s.note [.scriptsFound (s.findScripts m paths).length]).checkScripts
      (s.findScripts m paths) with
  | mk t result =>
    rw [hscripts] at hcount
    simp only at hcount
    subst hcount
    cases hzero : Script.mistakeCount sources with
    | zero => rfl
    | succ n =>
      rw [if_neg (Nat.succ_ne_zero n), ← hlength]
      rfl

/-- Checks, runs and canvases tell of the same mistakes in the same order, each with the place of
its token. A check of readable scripts fails exactly when the events of one of them show an error,
and counts the errors of all. -/
theorem mistakes_agree :
    (∀ source : List Char,
      (Script.problems source).map (·.message) = Script.messages source ∧
      (Script.canvas source).errors.toList = Script.messages source ∧
      Script.problems source = (Script.tokens source).filterMap Script.problemAt ∧
      ∀ p ∈ Script.problems source, ∃ before token after, source = before ++ token ++ after ∧
        p.place = .after before ∧ Token.parse token = some (.mistake p.message)) ∧
    ∀ (s : Session) (m : Manifest) (paths : List Path) (sources : List (List Char)),
      (s.findScripts m paths).map s.readScript = sources.map .ok →
        ((∃ fault, (s.check m paths).2 = .error fault) ↔
          ∃ source ∈ sources, ∃ message, Event.error message ∈ (Script.events source).toList) ∧
        ∀ fault, (s.check m paths).2 = .error fault →
          fault.kind = .check ∧
          fault.message = "Check failed: " ++
            (countText (sources.map fun source => (Script.messages source).length).sum "error" ++
              " in " ++ countText sources.length "script") := by
  constructor
  · intro source
    exact ⟨Script.map_message_problems source, toList_errors_canvas source,
      Script.problems_eq source, fun _ => Script.mem_problems⟩
  · intro s m paths sources hread
    have hcheck := check_of_readScript hread
    rw [← Script.mistakeCount_ne_zero_iff, hcheck]
    by_cases hzero : Script.mistakeCount sources = 0
    · rw [if_pos hzero]
      simp [hzero]
    · rw [if_neg hzero]
      refine ⟨⟨fun _ => hzero, fun _ => ⟨_, rfl⟩⟩, ?_⟩
      intro fault hfault
      cases hfault
      exact ⟨rfl, rfl⟩

/-- A file in the working directory with two tokens, neither of which is understood. -/
theorem mistakes_of_one_file :
    ∃ s : Session, ∃ path : Path, ∃ fault,
      (s.findScripts {} [path]).map s.readScript = [.ok "block.color-crimson x".toList] ∧
      (s.check {} [path]).2 = .error fault ∧
      fault.message = "Check failed: 2 errors in 1 script" := by
  let content : Content := .ofText "block.color-crimson x"
  let s : Session := { files := { entries := [(["a.blocks".toList], .file content)] } }
  let path := Path.ofString "a.blocks"
  have hfind : s.findScripts {} [path] = [path] := by
    have hroot : s.files.scriptsAt {} path = [path] := by rfl
    show s.files.findScripts {} [path] = [path]
    rw [FileTree.findScripts, List.flatMap_singleton, hroot, List.mergeSort_singleton]
    rfl
  have hread : (s.findScripts {} [path]).map s.readScript =
      ["block.color-crimson x".toList].map .ok := by
    rw [hfind]
    rfl
  obtain ⟨hfails, hmessage⟩ := mistakes_agree.2 s {} [path] _ hread
  have hevent : Event.error "unknown color: crimson" ∈
      (Script.events "block.color-crimson x".toList).toList := by decide
  obtain ⟨fault, hfault⟩ := hfails.mpr ⟨_, List.mem_singleton_self _, _, hevent⟩
  refine ⟨s, path, fault, hread, hfault, ?_⟩
  rw [(hmessage fault hfault).2]
  decide

end Session

end BlockScript
