/-
Jobs run on a scene. Most jobs only look at the disk and at the offset remembered, and leave both
as they are: such a job computes an outcome, and jobs that compute put together compute what their
outcomes put together are.
-/
import ShotTally.Proofs.Outcome
import ShotTally.Run.Scene

namespace ShotTally.Job

variable {α β γ : Type}

/-! ## Running -/

theorem run_bind (x : Job α) (f : α → Job β) (s : Scene) : (x >>= f).run s =
    match x.run s with
    | (.ok a, s') => (f a).run s'
    | (.error e, s') => (.error e, s') := by
  show (ExceptT.bindCont f =<< x.run) s = _
  show (match x.run s with | (r, s') => ExceptT.bindCont f r s') = _
  rcases x.run s with ⟨_ | _, _⟩ <;> rfl

theorem run_bind_ok {x : Job α} {f : α → Job β} {s s' : Scene} {a : α} (h : x.run s = (.ok a, s')) :
    (x >>= f).run s = (f a).run s' := by
  rw [run_bind, h]

theorem run_bind_error {x : Job α} {f : α → Job β} {s s' : Scene} {e : Failure} (h : x.run s = (.error e, s')) :
    (x >>= f).run s = (.error e, s') := by
  rw [run_bind, h]

/-- The step that goes first depends on a condition. -/
theorem run_either_bind_ok {c : Prop} [Decidable c] {x y : Job α} {f : α → Job β} {s s' : Scene} {a : α}
    (h : (if c then x else y).run s = (.ok a, s')) : (if c then x >>= f else y >>= f).run s = (f a).run s' := by
  by_cases hc : c
  · rw [if_pos hc] at h ⊢
    exact run_bind_ok h
  · rw [if_neg hc] at h ⊢
    exact run_bind_ok h

theorem run_writing {x : Disk.Writing α} {s : Scene} {o : Outcome α} {d : Disk} (h : x.run s.disk = (o, d)) :
    (Job.writing x).run s = (o, { s with disk := d }) := by
  refine (run_bind_ok (x := (get : Job Scene)) (s := s) rfl).trans ?_
  rw [h]
  exact run_bind_ok rfl

/-! ## Jobs that compute -/

/-- On every scene with this disk and this offset remembered, the job ends with the outcome and has
changed neither. -/
def Computes (d : Disk) (offset : Option Int) (x : Job α) (o : Outcome α) : Prop :=
  ∀ s : Scene, s.disk = d → s.memory.offset = offset →
    ∃ s' : Scene, x.run s = (o, s') ∧ s'.disk = d ∧ s'.memory.offset = offset ∧ s'.now = s.now

namespace Computes

variable {d : Disk} {offset : Option Int}

theorem pure (a : α) : Computes d offset (pure a) (.ok a) :=
  fun s hd ho => ⟨s, rfl, hd, ho, rfl⟩

theorem lift (o : Outcome α) : Computes d offset (Job.lift o) o :=
  fun s hd ho => ⟨s, rfl, hd, ho, rfl⟩

theorem disk : Computes d offset Job.disk (.ok d) := by
  rintro s rfl ho
  exact ⟨s, rfl, rfl, ho, rfl⟩

theorem record (e : Event) : Computes d offset (Job.record e) (.ok ()) :=
  fun s hd ho => ⟨{ s with journal := s.journal ++ [e] }, rfl, hd, ho, rfl⟩

theorem give (notices : List Notice) : Computes d offset (Job.give notices) (.ok ()) :=
  fun _ hd ho => ⟨_, rfl, hd, ho, rfl⟩

theorem bind {x : Job α} {f : α → Job β} {o : Outcome α} {g : α → Outcome β} (hx : Computes d offset x o)
    (hf : ∀ a, o = .ok a → Computes d offset (f a) (g a)) : Computes d offset (x >>= f) (o >>= g) := by
  intro s hd ho
  obtain ⟨s₁, hx, hd₁, ho₁, hn₁⟩ := hx s hd ho
  cases o with
  | error e => exact ⟨s₁, run_bind_error hx, hd₁, ho₁, hn₁⟩
  | ok a =>
    obtain ⟨s₂, hf, hd₂, ho₂, hn₂⟩ := hf a rfl s₁ hd₁ ho₁
    exact ⟨s₂, (run_bind_ok hx).trans hf, hd₂, ho₂, hn₂.trans hn₁⟩

theorem noted (x : Noted α) : Computes d offset (Job.noted x) x.outcome :=
  (give x.notices).bind fun _ _ => lift x.outcome

theorem mapM {f : α → Job β} {g : α → Outcome β} : ∀ {l : List α},
    (∀ a ∈ l, Computes d offset (f a) (g a)) → Computes d offset (l.mapM f) (l.mapM g)
  | [], _ => pure []
  | a :: l, h => by
    rw [List.mapM_cons, List.mapM_cons]
    exact (h a (by simp)).bind fun _ _ => (mapM fun b hb => h b (by simp [hb])).bind fun _ _ => pure _

end Computes
end ShotTally.Job
