import StackUnits.Proofs.Roster
import StackUnits.Proofs.TwoRuns

/-!
# Sessions can be used again

A session compiles one program after the other, and a compilation may fail at any point, within a
task inside of a task. What it has reached by then is still in the session: units that are finished,
units that are begun, and notes. The next compilation begins by forgetting the units. The notes
stay, so the session is not the same as a fresh one; but nothing depends on them, and every call
answers as it would on a fresh session (`StackUnits.Session.answers_eq_fresh`).

Failing runs matter here as much as those that succeed: two runs of the compiler end alike if they
start from the same settings and the same resolver (`StackUnits.Session.agree_compileNamed`).
-/

namespace StackUnits

open StackUnits.Action

/-! ### One call after the other -/

namespace Session

/-- **A call on a session**: the compilation of a program, under the configured name or another. -/
inductive Call
  | program (tree : Tree)
  | named (name : String) (tree : Tree)

/-- The action that a call stands for. -/
def Call.run : Call → SessionM Compilation
  | program tree => compile tree
  | named name tree => compileNamed name tree

/-- **The answer to a call**, a compilation or an error. -/
def Call.answer (call : Call) (session : Session) : Except CompileError Compilation :=
  match call.run session with
  | .ok c _ => .ok c
  | .error e _ => .error e

/-- The session that a call leaves, with whatever it holds by then. -/
def Call.leaves (call : Call) (session : Session) : Session :=
  match call.run session with
  | .ok _ after => after
  | .error _ after => after

/-- **The answers to calls made on one session**, one after the other. -/
def answers : List Call → Session → List (Except CompileError Compilation)
  | [], _ => []
  | call :: calls, session => call.answer session :: answers calls (call.leaves session)

/-- A call ends alike on any two sessions with the same settings and resolver, whatever units and
notes they have from the calls before. -/
theorem Call.agree_run (call : Call) {session session' : Session}
    (hconfig : session'.config = session.config)
    (hresolver : session'.resolver = session.resolver) :
    Agree (Alike session.outside session'.outside) (call.run session) (call.run session') := by
  have halike : session.outside.Alike session'.outside := by
    rw [outside, outside, hconfig, hresolver]
    exact .refl _
  cases call with
  | program tree =>
    change Agree _ (compileNamed _ tree session) (compileNamed _ tree session')
    rw [hconfig]
    exact agree_compileNamed _ tree halike
  | named name tree => exact agree_compileNamed name tree halike

/-- A call answers as on any session with the same settings and resolver. -/
theorem Call.answer_congr (call : Call) {session session' : Session}
    (hconfig : session'.config = session.config)
    (hresolver : session'.resolver = session.resolver) :
    call.answer session = call.answer session' := by
  unfold answer
  rcases (call.agree_run hconfig hresolver).cases with
    ⟨c, s, t, hs, ht, -⟩ | ⟨e, s, t, hs, ht, -⟩
  · rw [hs, ht]
  · rw [hs, ht]

/-- A call keeps the settings and the resolver, also if it fails. So the next call finds what the
first one has. -/
theorem Call.leaves_keeps (call : Call) (session : Session) :
    (call.leaves session).config = session.config ∧
      (call.leaves session).resolver = session.resolver := by
  unfold leaves
  have hrun := call.agree_run (rfl : session.config = _) rfl
  rcases hrun.cases with ⟨c, s, t, hs, -, h⟩ | ⟨e, s, t, hs, -, h⟩
  · rw [hs]
    exact ⟨congrArg Outside.config h.left, congrArg Outside.resolver h.left⟩
  · rw [hs]
    exact ⟨congrArg Outside.config h.left, congrArg Outside.resolver h.left⟩

/-- **Sessions carry nothing over.** Each of the calls that are made on a session answers as it does
on a fresh one with the same settings and resolver, whether the calls before it succeed or fail.

An answer is the whole compilation, or the error; notes are not part of it, as these do add up. By
induction on the calls, from any session, since the first of them may leave units behind. -/
theorem answers_eq_fresh (calls : List Call) (session : Session) :
    answers calls session = calls.map fun call =>
      call.answer { config := session.config, resolver := session.resolver } := by
  induction calls generalizing session with
  | nil => rfl
  | cons call calls ih =>
    obtain ⟨hconfig, hresolver⟩ := call.leaves_keeps session
    rw [answers, ih, hconfig, hresolver, List.map_cons]
    exact congrArg (· :: _) (call.answer_congr rfl rfl)

-- The first program fails in a task inside of a task that the second one gives as well.
example : (answers [.program (.ofInlineSpawn "Outer"
      (.ofInlineSpawn "Inner" (.unary .print (.ofName "x")))), .program .relay,
    .named "Outer" .relay] .ticking).map Except.isOk = [false, true, false] := by
  decide +kernel

end Session

end StackUnits
