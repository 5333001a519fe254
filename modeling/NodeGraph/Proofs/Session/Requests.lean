import NodeGraph.Proofs.Session.Identity
import NodeGraph.Proofs.Session.Memoization

/-!
# Commands that make requests

A command that makes one request of a graph, or several in an epoch of their own, answers it for the
context that is named and leaves everything in the session but that graph as it was
(`Session.answer_eq_ok_iff`, `Session.answerAll_eq_ok_iff`).
-/

namespace NodeGraph

namespace Engine

/-- Opens one epoch and answers requests in it, in order and for the engine's own context. -/
def answerAll (e : Engine) (requests : List Request) : Except Fault (List Value) × Engine :=
  collect (fun request e => e.answer e.context request) requests e.openEpoch

theorem collect_map {α β : Type} (f : β → Engine → Except Fault Value × Engine) (g : α → β)
    (requests : List α) (e : Engine) :
    collect f (requests.map g) e = collect (fun a => f (g a)) requests e := by
  induction requests generalizing e with
  | nil => rfl
  | cons a rest ih => simp only [List.map_cons, collect, ih]

theorem getValues_eq_answerAll (e : Engine) (addrs : List InputAddr) :
    e.getValues addrs = e.answerAll (addrs.map .input) := by
  rw [answerAll, collect_map]
  rfl

theorem pullOutputs_eq_answerAll (e : Engine) (addrs : List OutputAddr) :
    e.pullOutputs addrs = e.answerAll (addrs.map .output) := by
  rw [answerAll, collect_map]
  rfl

theorem context_answer (e : Engine) (context : Context) (request : Request) :
    (e.answer context request).2.context = e.context := by
  cases request with
  | input addr => exact context_getValue e addr context
  | output addr => exact context_pullOutput e addr context

theorem frame_answer (e : Engine) (context : Context) (request : Request) :
    (e.answer context request).2.graph.frame = e.graph.frame := by
  cases request with
  | input addr => exact frame_getValue e addr context
  | output addr => exact frame_pullOutput e addr context

end Engine

namespace Command

/-- The request that a command makes of its graph, and the context that it is made for. -/
def request? : Command → Option (Request × Option Nat)
  | .getValue addr context => some (.input addr, context)
  | .pullOutput addr context => some (.output addr, some context)
  | _ => none

/-- The requests that a command makes of its graph in an epoch of their own. -/
def batch? : Command → Option (List Request)
  | .getValues addrs => some (addrs.map .input)
  | .pullOutputs addrs => some (addrs.map .output)
  | _ => none

end Command

namespace Session

variable {s s' : Session} {index limit : Nat} {reply : Except Fault Reply} {command : Command}

theorem onMachine_answer_eq_ok_iff (context : Option Nat) (request : Request) :
    (s.onMachine index context fun m => some ((m.engine.answer m.context request).1.map .value,
        { m with engine := (m.engine.answer m.context request).2 })) = .ok (reply, s') ↔
      ∃ sheet e c, s.sheets[index]? = some sheet ∧ sheet.engine? = some e ∧
        s.context? index context = some c ∧ reply = (e.answer c request).1.map .value ∧
        s' = s.setSheet index (sheet.withEngine (e.answer c request).2) := by
  cases context with
  | none =>
    rw [onMachine_own_eq_ok_iff]
    have back (e : Engine) : { (e.answer e.context request).2 with context := e.context } =
        (e.answer e.context request).2 := by
      have own := e.context_answer e.context request
      generalize e.answer e.context request = answered at own
      rw [← own]
    constructor
    · rintro ⟨sheet, e, m', found, has, acted, rfl⟩
      obtain ⟨rfl, rfl⟩ := Prod.mk.inj (Option.some.inj acted)
      refine ⟨sheet, e, e.context, found, has, context?_own (engine?_eq_some found has), rfl, ?_⟩
      dsimp only
      rw [back]
    · rintro ⟨sheet, e, c, found, has, there, rfl, rfl⟩
      obtain rfl := Option.some.inj ((context?_own (engine?_eq_some found has)).symm.trans there)
      refine ⟨sheet, e, _, found, has, rfl, ?_⟩
      dsimp only
      rw [back]
  | some extra =>
    rw [onMachine_extra_eq_ok_iff]
    constructor
    · rintro ⟨sheet, e, c, m', found, has, place, acted, rfl⟩
      obtain ⟨rfl, rfl⟩ := Prod.mk.inj (Option.some.inj acted)
      refine ⟨sheet, e, c, found, has, place, rfl, ?_⟩
      dsimp only
      rw [setIfInBounds_self place]
      rfl
    · rintro ⟨sheet, e, c, found, has, place, rfl, rfl⟩
      refine ⟨sheet, e, c, _, found, has, place, rfl, ?_⟩
      dsimp only
      rw [setIfInBounds_self place]
      rfl

theorem answer_eq_ok_iff {request : Request} {context : Option Nat}
    (single : command.request? = some (request, context)) :
    s.perform limit index command = .ok (reply, s') ↔
      ∃ sheet e c, s.sheets[index]? = some sheet ∧ sheet.engine? = some e ∧
        s.context? index context = some c ∧ reply = (e.answer c request).1.map .value ∧
        s' = s.setSheet index (sheet.withEngine (e.answer c request).2) := by
  cases command with
  | getValue addr other =>
    obtain ⟨rfl, rfl⟩ := Prod.mk.inj (Option.some.inj single)
    exact onMachine_answer_eq_ok_iff other (.input addr)
  | pullOutput addr other =>
    obtain ⟨rfl, rfl⟩ := Prod.mk.inj (Option.some.inj single)
    exact onMachine_answer_eq_ok_iff (some other) (.output addr)
  | _ => cases single

theorem answerAll_eq_ok_iff {requests : List Request} (batch : command.batch? = some requests) :
    s.perform limit index command = .ok (reply, s') ↔
      ∃ sheet e, s.sheets[index]? = some sheet ∧ sheet.engine? = some e ∧
        reply = (e.answerAll requests).1.map .values ∧
        s' = s.setSheet index (sheet.withEngine (e.answerAll requests).2) := by
  cases command with
  | getValues addrs =>
    obtain rfl := Option.some.inj batch
    unfold Session.perform
    simp only [← Engine.getValues_eq_answerAll, onEngine_eq_ok_iff]
  | pullOutputs addrs =>
    obtain rfl := Option.some.inj batch
    unfold Session.perform
    simp only [← Engine.pullOutputs_eq_answerAll, onEngine_eq_ok_iff]
  | _ => cases batch

end Session

end NodeGraph
