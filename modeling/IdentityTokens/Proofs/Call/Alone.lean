import IdentityTokens.Proofs.Call.Sessions

/-! # A call that nobody disturbs

Run by itself, a call goes one of the ways it can go when it is answered question by question.
What it is told on that way is told by the world too, unless it was cancelled before: then it
hears that it is, and nothing is asked. -/
namespace IdentityTokens.Call

variable {α : Type} {c : Call α} {outside : Outside} {w : World}

/-- A gate is open to a call on its own, or the call is cancelled in front of it. -/
theorem run_behind (c : Call α) (g : Gate) :
    (c.behind g).run outside w =
      if w.cancelled && g.isInterruptible then (.error .cancelled, w) else c.run outside w := by
  rw [behind, run]
  cases h : w.cancelled && g.isInterruptible with
  | true => rfl
  | false =>
    change (c.onResult _).run outside w = _
    rw [run_onResult]
    rfl

/-- Only cancellation answers in place of the world. -/
theorem interrupts_of_interrupted {q : Question} {a : q.Answer} (h : q.interrupted? = some a) :
    (Event.mk q a).interrupts = true := by
  cases q <;> cases h <;> rfl

/-- What a call was answered on its way, as far as the world was asked. -/
structure Told (answers told : List Event) : Prop where
  sublist : told.Sublist answers
  missing : ∀ e ∈ answers, e.interrupts = false → e ∈ told

theorem Told.nil : Told [] [] := ⟨.slnil, fun _ he => absurd he List.not_mem_nil⟩

theorem Told.cons {answers told : List Event} (e : Event) (h : Told answers told) :
    Told (e :: answers) (e :: told) := by
  refine ⟨h.sublist.cons_cons e, ?_⟩
  intro f hf hi
  rcases List.mem_cons.mp hf with rfl | hf
  · exact List.mem_cons_self
  · exact List.mem_cons_of_mem _ (h.missing f hf hi)

/-- An answer that only says that the call is cancelled is not told. -/
theorem Told.skip {answers told : List Event} {e : Event} (he : e.interrupts = true)
    (h : Told answers told) : Told (e :: answers) told := by
  refine ⟨h.sublist.cons e, ?_⟩
  intro f hf hi
  rcases List.mem_cons.mp hf with rfl | hf
  · rw [he] at hi
    cases hi
  · exact h.missing f hf hi

/-- **A run by itself is one of the ways that a call can go.** -/
theorem reaches_run (hc : c.Only Deed.Gateless) (outside : Outside) (w : World) :
    ∃ answers told,
      c.Reaches w.memory answers (.done (c.run outside w).1) (c.run outside w).2.memory ∧
      (c.run outside w).2.events = w.events ++ told ∧ Told answers told := by
  induction c generalizing w with
  | done r => exact ⟨[], [], .start _ _, (List.append_nil _).symm, .nil⟩
  | ask q next ih =>
    rw [run]
    split
    · rename_i a ha
      have hi : (Event.mk q a).interrupts = true := by
        split at ha
        · exact interrupts_of_interrupted ha
        · cases ha
      obtain ⟨answers, told, hr, he, ht⟩ := ih a (hc.2 a) w
      exact ⟨⟨q, a⟩ :: answers, told, .ask a hr, he, ht.skip hi⟩
    · obtain ⟨answers, told, hr, he, ht⟩ :=
        ih (outside w.events q) (hc.2 _) (w.add ⟨q, outside w.events q⟩)
      refine ⟨⟨q, outside w.events q⟩ :: answers, ⟨q, outside w.events q⟩ :: told, .ask _ hr, ?_,
        ht.cons _⟩
      rw [he, World.add, List.append_assoc, List.singleton_append]
  | look next ih =>
    obtain ⟨answers, told, hr, he, ht⟩ := ih w.memory (hc.2 _) w
    exact ⟨answers, told, .look hr, he, ht⟩
  | keep change next ih =>
    obtain ⟨answers, told, hr, he, ht⟩ := ih hc.2 { w with memory := change w.memory }
    exact ⟨answers, told, .keep hr, he, ht⟩
  | enter g next => exact hc.1.elim
  | exit g next => exact hc.1.elim

end IdentityTokens.Call
