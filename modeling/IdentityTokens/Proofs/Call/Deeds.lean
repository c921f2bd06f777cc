import IdentityTokens.Call.Web
import IdentityTokens.Proofs.Call.Runs
import IdentityTokens.Proofs.Net.Requests

/-! # What a call may do

A call does only deeds of some sort if nothing it learns ever leads it to another one. That
is read off the call as it is built, before any run and whatever turns it takes; what a run
then adds to the events is of that sort. -/
namespace IdentityTokens

inductive Deed where
  | ask (question : Question)
  | look
  | keep
  | enter (gate : Gate)
  | exit (gate : Gate)

namespace Call

variable {α β : Type} {P : Deed → Prop}

/-- Whatever is answered and remembered, only deeds of one sort are done. -/
def Only (P : Deed → Prop) : Call α → Prop
  | .done _ => True
  | .ask q next => P (.ask q) ∧ ∀ a, (next a).Only P
  | .look next => P .look ∧ ∀ m, (next m).Only P
  | .keep _ next => P .keep ∧ next.Only P
  | .enter g next => P (.enter g) ∧ ∀ entered, (next entered).Only P
  | .exit g next => P (.exit g) ∧ next.Only P

theorem only_done (r : Except AuthError α) : (done r).Only P := trivial

theorem only_ok (a : α) : (ok a).Only P := trivial

theorem only_fail (e : AuthError) : (fail e : Call α).Only P := trivial

theorem Only.onResult {c : Call α} {f : Except AuthError α → Call β} (hc : c.Only P)
    (hf : ∀ r, (f r).Only P) : (c.onResult f).Only P := by
  induction c with
  | done r => exact hf r
  | ask q next ih => exact ⟨hc.1, fun a => ih a (hc.2 a)⟩
  | look next ih => exact ⟨hc.1, fun m => ih m (hc.2 m)⟩
  | keep change next ih => exact ⟨hc.1, ih hc.2⟩
  | enter g next ih => exact ⟨hc.1, fun entered => ih entered (hc.2 entered)⟩
  | exit g next ih => exact ⟨hc.1, ih hc.2⟩

theorem Only.bind {c : Call α} {f : α → Call β} (hc : c.Only P) (hf : ∀ a, (f a).Only P) :
    (c >>= f).Only P :=
  hc.onResult fun
    | .ok a => hf a
    | .error e => only_fail e

theorem Only.attempt {c : Call α} (hc : c.Only P) : c.attempt.Only P :=
  hc.onResult only_ok

theorem Only.mapError {c : Call α} (f : AuthError → AuthError) (hc : c.Only P) :
    (c.mapError f).Only P :=
  hc.onResult fun _ => only_done _

theorem Only.behind {g : Gate} {c : Call α} (henter : P (.enter g)) (hexit : P (.exit g))
    (hc : c.Only P) : (c.behind g).Only P := by
  refine ⟨henter, ?_⟩
  intro entered
  cases entered with
  | true => exact hc.onResult fun _ => ⟨hexit, trivial⟩
  | false => exact only_fail _

theorem only_question {q : Question} (h : P (.ask q)) : (question q).Only P :=
  ⟨h, fun _ => trivial⟩

theorem only_given (a : Option α) : (given a).Only P := by cases a <;> trivial

theorem only_memory (h : P .look) : memory.Only P := ⟨h, fun _ => trivial⟩

theorem only_remember (h : P .keep) (change : Memory → Memory) : (remember change).Only P :=
  ⟨h, trivial⟩

/-- A request is only ever sent as it was built. -/
theorem only_send {r : Except TransportFault Request} (hgo : P (.ask .goAhead))
    (hr : ∀ request, r = .ok request → P (.ask (.exchange request))) :
    (Web.send r).Only P := by
  cases r with
  | error f => exact ((only_question hgo).bind only_given).bind fun _ => only_fail _
  | ok request =>
    exact ((only_question (hr request rfl)).bind only_given).bind fun _ => only_done _

/-- What is posted goes to one address, with the token of the bearer. -/
theorem only_post {bearer : Bearer} {url : String} {body : Json}
    (htoken : P (.ask .accessToken)) (hgo : P (.ask .goAhead))
    (hr : ∀ token request,
      Request.build .post url (Web.jsonHeader :: Bearer.headers token) body.compact = .ok request →
      P (.ask (.exchange request))) :
    (Web.post bearer url body).Only P := by
  refine Only.bind ?_ fun token => only_send hgo (hr token)
  cases bearer with
  | nobody => exact only_ok _
  | fixed token => exact only_ok _
  | custom => exact ((only_question htoken).bind only_done).bind fun _ => only_ok _

theorem only_of_forall (h : ∀ d, P d) (c : Call α) : c.Only P := by
  induction c with
  | done r => trivial
  | ask q next ih => exact ⟨h _, ih⟩
  | look next ih => exact ⟨h _, ih⟩
  | keep change next ih => exact ⟨h _, ih⟩
  | enter g next ih => exact ⟨h _, ih⟩
  | exit g next ih => exact ⟨h _, ih⟩

theorem Only.mono {Q : Deed → Prop} {c : Call α} (hc : c.Only P) (h : ∀ d, P d → Q d) :
    c.Only Q := by
  induction c with
  | done r => trivial
  | ask q next ih => exact ⟨h _ hc.1, fun a => ih a (hc.2 a)⟩
  | look next ih => exact ⟨h _ hc.1, fun m => ih m (hc.2 m)⟩
  | keep change next ih => exact ⟨h _ hc.1, ih hc.2⟩
  | enter g next ih => exact ⟨h _ hc.1, fun entered => ih entered (hc.2 entered)⟩
  | exit g next ih => exact ⟨h _ hc.1, ih hc.2⟩

/-- What keeps nothing leaves what is remembered as it is. -/
theorem Only.memory_run {c : Call α} (hc : c.Only (· ≠ .keep)) (outside : Outside) (w : World) :
    (c.run outside w).2.memory = w.memory := by
  induction c generalizing w with
  | done r => rfl
  | ask q next ih =>
    rw [Call.run]
    split
    · exact ih _ (hc.2 _) w
    · exact ih _ (hc.2 _) _
  | look next ih => exact ih _ (hc.2 _) w
  | keep change next ih => exact absurd rfl hc.1
  | enter g next ih => exact ih _ (hc.2 _) w
  | exit g next ih => exact ih hc.2 w

/-- What a run adds to the events is of the sort that the call may ask. -/
theorem Only.run {c : Call α} (hc : c.Only P) (outside : Outside) (w : World) :
    ∃ es, (c.run outside w).2.events = w.events ++ es ∧ ∀ e ∈ es, P (.ask e.question) := by
  induction c generalizing w with
  | done r => exact ⟨[], by simp [Call.run], by simp⟩
  | ask q next ih =>
    rw [Call.run]
    split
    · exact ih _ (hc.2 _) w
    · obtain ⟨es, hes, hall⟩ := ih _ (hc.2 (outside w.events q))
        (w.add ⟨q, outside w.events q⟩)
      refine ⟨⟨q, outside w.events q⟩ :: es, ?_, ?_⟩
      · rw [hes, World.add, List.append_assoc, List.singleton_append]
      · intro e he
        rcases List.mem_cons.mp he with rfl | he
        · exact hc.1
        · exact hall e he
  | look next ih => exact ih w.memory (hc.2 w.memory) w
  | keep change next ih => exact ih hc.2 _
  | enter g next ih => exact ih _ (hc.2 _) w
  | exit g next ih => exact ih hc.2 w

end Call

end IdentityTokens
