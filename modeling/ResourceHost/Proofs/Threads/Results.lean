import ResourceHost.Proofs.Threads.Progress
import ResourceHost.Proofs.Threads.Stories

/-!
# What programs end with

A program knows its cache from answers only.  So what it ends with can be told
from what answers it may be given, whoever else uses the cache meanwhile.
-/

namespace ResourceHost

namespace Program

variable {α β : Type} {A : (r : Request) → r.Reply → Prop} {Q : α → Prop}
  {R : β → Prop}

/-- Whatever the program ends with satisfies `Q`, if every answer satisfies
`A`. -/
def Ensures (A : (r : Request) → r.Reply → Prop) (Q : α → Prop) :
    Program α → Prop
  | .done a => Q a
  | .ask r next => ∀ a, A r a → (next a).Ensures A Q

theorem ensures_pure {a : α} (ha : Q a) : (pure a : Program α).Ensures A Q := ha

theorem ensures_request {r : Request} {Q : r.Reply → Prop}
    (hr : ∀ a, A r a → Q a) : (request r).Ensures A Q :=
  hr

/-- Nothing is asked of what the program ends with. -/
theorem ensures_true (p : Program α) : p.Ensures A fun _ => True := by
  induction p with
  | done a => trivial
  | ask r next ih => exact fun a _ => ih a

theorem Ensures.bind {p : Program α} {f : α → Program β} (hp : p.Ensures A Q)
    (hf : ∀ a, Q a → (f a).Ensures A R) : (p >>= f).Ensures A R := by
  show (p.andThen f).Ensures A R
  induction p with
  | done a => exact hf a hp
  | ask r next ih => exact fun a ha => ih a (hp a ha)

/-- Stops at a failure of which `F` is true, and goes on with a value
otherwise. -/
theorem Ensures.orStop {p : Program (Except Failure α)}
    {f : α → Program (Except Failure β)} {F : Failure → Prop}
    {R : Except Failure β → Prop}
    (hp : p.Ensures A fun o => (∀ e, o = .error e → F e) ∧ ∀ a, o = .ok a → Q a)
    (hF : ∀ e, F e → R (.error e)) (hf : ∀ a, Q a → (f a).Ensures A R) :
    (p.orStop f).Ensures A R := by
  refine hp.bind fun o ho => ?_
  cases o with
  | ok a => exact hf a (ho.2 a rfl)
  | error e => exact ensures_pure (hF e (ho.1 e rfl))

end Program

/-! ### Threads -/

/-- Whatever the thread ends with satisfies `Q`, if every answer satisfies
`A`. -/
def Thread.Ensures {α : Type} (A : (r : Request) → r.Reply → Prop)
    (Q : α → Prop) : Thread α → Prop
  | .finished a => Q a
  | .busy r _ next => ∀ a, A r a → (next a).Ensures A Q

section

variable {α : Type} {A : (r : Request) → r.Reply → Prop} {Q : α → Prop}

theorem Thread.ensures_ofProgram {p : Program α} (hp : p.Ensures A Q) :
    (Thread.ofProgram p).Ensures A Q := by
  cases p with
  | done a => exact hp
  | ask r next => exact hp

theorem Thread.Ensures.roused {t : Thread α} (ht : t.Ensures A Q)
    (w : Option SlotId) : (t.roused w).Ensures A Q := by
  cases t with
  | finished a =>
    cases w with
    | none => exact ht
    | some s => exact ht
  | busy r p next =>
    rcases roused_busy w p next with heq | ⟨s, errand, rfl, heq⟩ <;>
      rw [heq] <;> exact ht

namespace Machine

variable {conduct : Conduct} {m₀ m : Machine α} {es : List Event}

/-- Along a course a thread keeps to what its program ensures, if every answer
that it was given satisfies `A`. -/
theorem Course.ensures (h : Course conduct m₀ es m) {i : Nat} {t₀ : Thread α}
    (hi : m₀.threads[i]? = some t₀) (ht : t₀.Ensures A Q)
    (hA : ∀ r a, Event.answered i r a ∈ es → A r a) :
    ∃ t, m.threads[i]? = some t ∧ t.Ensures A Q := by
  induction h with
  | refl => exact ⟨t₀, hi, ht⟩
  | @step _ m _ j h hs ih =>
    obtain ⟨t, hit, htens⟩ :=
      ih fun r a hmem => hA r a (List.mem_append_right _ hmem)
    obtain ⟨r, p, next, mv, hj, hmv, hev, rfl⟩ := step_cases hs
    by_cases hij : i = j
    · subst hij
      cases hj.symm.trans hit
      refine ⟨_, getElem?_set_wake_self hj, ?_⟩
      cases hmv' : mv with
      | blocked => exact absurd hmv' hmv.ne_blocked
      | go q c => exact htens
      | reply a w c =>
        refine Thread.ensures_ofProgram
          (htens a (hA r a (List.mem_append_left _ ?_)))
        rw [hev, hmv']
        exact Move.answered_mem_events.2 ⟨a, rfl, rfl⟩
    · exact ⟨_, getElem?_set_wake_of_ne hij hit, htens.roused _⟩
  | drift h hc ih => exact ih hA
  | stir h j ih =>
    obtain ⟨t, hit, htens⟩ := ih hA
    obtain ⟨w, hw⟩ := getElem?_stir (i := j) hit
    exact ⟨_, hw, htens.roused w⟩

/-- A thread that is through stays so and is not answered again. -/
theorem Course.finished (h : Course conduct m₀ es m) {i : Nat} {a : α}
    (hi : m₀.threads[i]? = some (.finished a)) :
    m.threads[i]? = some (.finished a) ∧ ∀ r b, Event.answered i r b ∉ es := by
  have hroused : ∀ w, (Thread.finished a).roused w = .finished a := by
    rintro (_ | s) <;> rfl
  induction h with
  | refl => exact ⟨hi, fun r b hmem => nomatch hmem⟩
  | @step _ m _ j h hs ih =>
    obtain ⟨hit, hunanswered⟩ := ih
    obtain ⟨r, p, next, mv, hj, hmv, hev, rfl⟩ := step_cases hs
    have hij : i ≠ j := by
      rintro rfl
      cases hj.symm.trans hit
    refine ⟨hroused mv.woken? ▸ getElem?_set_wake_of_ne hij hit,
      fun r' b hmem => ?_⟩
    rcases List.mem_append.1 hmem with hnow | hbefore
    · exact Move.answered_not_mem_events hij (hev ▸ hnow)
    · exact hunanswered r' b hbefore
  | drift h hc ih => exact ih
  | stir h j ih =>
    obtain ⟨w, hw⟩ := getElem?_stir (i := j) ih.1
    exact ⟨hroused w ▸ hw, ih.2⟩

/-- Stands at the request still, and was not answered anything. -/
def StillAsks (m : Machine α) (es : List Event) (i : Nat) (r : Request)
    (next : r.Reply → Program α) : Prop :=
  (∃ q, m.threads[i]? = some (.busy r q next)) ∧
    ∀ r' b, Event.answered i r' b ∉ es

/-- A step of a thread that still asks: it asks on, or is answered. -/
theorem StillAsks.own_step {i : Nat} {r : Request} {next : r.Reply → Program α}
    {m' : Machine α} (h : m.StillAsks es i r next) (hs : m.step i = some m') :
    m'.StillAsks (m.events i ++ es) i r next ∨
      ∃ a marks, m.events i = .answered i r a :: marks ∧
        (∀ r' b, Event.answered i r' b ∉ marks ++ es) ∧
        m'.threads[i]? = some (.ofProgram (next a)) := by
  obtain ⟨⟨q, hit⟩, hunanswered⟩ := h
  obtain ⟨r', p, next', mv, hi, hmv, hev, rfl⟩ := step_cases hs
  cases hi.symm.trans hit
  have hmarks : ∀ r' b, Event.answered i r' b ∉ mv.marks i q m.cache ++ es := by
    intro r' b hmem
    rcases List.mem_append.1 hmem with hmem | hmem
    · exact Move.answered_not_mem_marks hmem
    · exact hunanswered r' b hmem
  have hthread : ((wake mv.woken? m.threads).set i (mv.thread q next))[i]? =
    some (mv.thread q next) := getElem?_set_wake_self hit
  cases mv with
  | blocked => exact absurd rfl hmv.ne_blocked
  | go q' c => exact .inl ⟨⟨q', hthread⟩, hev ▸ hmarks⟩
  | reply a w c => exact .inr ⟨a, _, hev, hmarks, hthread⟩

theorem StillAsks.roused {i : Nat} {r : Request} {next : r.Reply → Program α}
    {m' : Machine α} (h : m.StillAsks es i r next)
    (ht : ∀ t, m.threads[i]? = some t →
      ∃ w, m'.threads[i]? = some (t.roused w)) :
    m'.StillAsks es i r next := by
  obtain ⟨⟨q, hit⟩, hunanswered⟩ := h
  obtain ⟨w, hw⟩ := ht _ hit
  refine ⟨?_, hunanswered⟩
  rcases Thread.roused_busy w q next with heq | ⟨s, errand, rfl, heq⟩
  · exact ⟨q, heq ▸ hw⟩
  · exact ⟨_, heq ▸ hw⟩

theorem StillAsks.other_step {i j : Nat} {r : Request}
    {next : r.Reply → Program α} {m' : Machine α} (h : m.StillAsks es i r next)
    (hij : i ≠ j) (hs : m.step j = some m') :
    m'.StillAsks (m.events j ++ es) i r next := by
  obtain ⟨r', p, next', mv, hj, hmv, hev, rfl⟩ := step_cases hs
  refine ⟨(h.roused fun t ht => ⟨mv.woken?, getElem?_set_wake_of_ne hij ht⟩).1,
    fun r'' b hmem => ?_⟩
  rcases List.mem_append.1 hmem with hnow | hbefore
  · exact Move.answered_not_mem_events hij (hev ▸ hnow)
  · exact h.2 r'' b hbefore

/-- A thread still asks what it asked at first, or was answered that, and went
on with what follows the answer. -/
theorem Course.asked (h : Course conduct m₀ es m) {i : Nat} {r : Request}
    {p : Point r} {next : r.Reply → Program α}
    (hi : m₀.threads[i]? = some (.busy r p next)) :
    m.StillAsks es i r next ∨
      ∃ a es₁ es₂ m₁, es = es₂ ++ .answered i r a :: es₁ ∧
        (∀ r' b, Event.answered i r' b ∉ es₁) ∧
        m₁.threads[i]? = some (.ofProgram (next a)) ∧
        Course conduct m₁ es₂ m := by
  induction h with
  | refl => exact .inl ⟨⟨p, hi⟩, fun r b hmem => nomatch hmem⟩
  | @step es m _ j h hs ih =>
    rcases ih with hasks | ⟨a, es₁, es₂, m₁, rfl, hfirst, hm₁, hrest⟩
    · by_cases hij : i = j
      · subst hij
        rcases hasks.own_step hs with hasks' | ⟨a, marks, hev, hfirst, hnext⟩
        · exact .inl hasks'
        · exact .inr ⟨a, marks ++ es, [],
            _, by rw [hev]; rfl, hfirst, hnext, .refl⟩
      · exact .inl (hasks.other_step hij hs)
    · exact .inr ⟨a, es₁, _, m₁, (List.append_assoc ..).symm, hfirst, hm₁,
        hrest.step hs⟩
  | drift h hc ih =>
    rcases ih with hasks | ⟨a, es₁, es₂, m₁, rfl, hfirst, hm₁, hrest⟩
    · exact .inl hasks
    · exact .inr ⟨a, es₁, es₂, m₁, rfl, hfirst, hm₁, hrest.drift hc⟩
  | stir h j ih =>
    rcases ih with hasks | ⟨a, es₁, es₂, m₁, rfl, hfirst, hm₁, hrest⟩
    · exact .inl (hasks.roused fun t ht => getElem?_stir ht)
    · exact .inr ⟨a, es₁, es₂, m₁, rfl, hfirst, hm₁, hrest.stir j⟩

end Machine

end

end ResourceHost
