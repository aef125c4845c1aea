import ResourceHost.Proofs.Package.Flush
import ResourceHost.Proofs.Package.Holders
import ResourceHost.Proofs.Threads.Contents
import ResourceHost.Proofs.Threads.Results

/-!
# Loads and flushes in any order

Loads of packages run in threads of their own.  A load is scheduled once it has
found its manifest; a flush takes out what is scheduled for its package and
reports when all of that is over.  Meanwhile more loads may be scheduled, of
this package or another, and other flushes may begin.  Each load is taken out by
one flush, the next of its package, which reports once, and what it reports is
the earliest failure among its loads.
-/

namespace ResourceHost

namespace Package

open Program Machine

/-- Threads that load packages, beside others. -/
abbrev Loaders := Machine (Except Failure (Except Failure Unit))

/-- What came of the load in a thread, once it is over. -/
def outcome? (m : Loaders) (i : Nat) : Option (Except Failure Unit) :=
  match m.threads[i]? with
  | some (.finished (.ok o)) => some o
  | _ => none

theorem outcome?_eq_some_iff {m : Loaders} {i : Nat} {o : Except Failure Unit} :
    outcome? m i = some o ↔ m.threads[i]? = some (.finished (.ok o)) := by
  unfold outcome?
  split
  · rename_i o' hfinished
    simp [hfinished]
  · rename_i hnot
    exact iff_of_false nofun fun hfinished => hnot o hfinished

/-- The load in a thread has been given its manifest. -/
def Told (es : List Event) (i : Nat) (p : NameId) (man : Manifest) : Prop :=
  ∃ x, Event.answered i (.visit (handle p) .get) (.ok x) ∈ es ∧
    x.content.asPackage? = some man

/-- Why the load in a thread fails: the type of a group is not registered, or a
resource that the manifest lists could not be loaded, and the failure names
it. -/
def Fault (es : List Event) (i : Nat) (man : Manifest) (f : Failure) : Prop :=
  (∃ g ∈ man.groups, f = .unknownType g.type ∧
      Event.answered i (.kind g.type) none ∈ es) ∨
    ∃ h ∈ man.handles, f.handle? = some h ∧
    ∃ k, Event.answered i (.acquire h k) (.error f) ∈ es

/-! ### What one load comes to -/

/-- A failed load of a resource names the resource. -/
def Named (s : SlotId) (o : Except Failure Representation) : Prop :=
  ∀ f, o = .error f → f.handle? = some s.handle

theorem yields_named (conduct : Conduct) : conduct.Yields Named where
  unread s why f heq := by
    cases heq
    rfl
  loaded _ _ _ _ _ _ := nofun
  rejected s k bytes f _ _ f' heq := by
    cases heq
    rfl

theorem renews_named (conduct : Conduct) : conduct.Renews Named :=
  fun _ _ _ _ _ _ _ _ => nofun

/-- The answers that thread `i` was given, and what they may say of failures. -/
def Heard (es : List Event) (i : Nat) (r : Request) (a : r.Reply) : Prop :=
  Event.answered i r a ∈ es ∧ r.Granted Named a

section

variable {es : List Event} {i : Nat} {man : Manifest}

/-- Fails, if it does, for a reason that says why the load in thread `i`
fails. -/
def Faults (es : List Event) (i : Nat) (man : Manifest) {α : Type}
    (o : Except Failure α) : Prop :=
  ∀ f, o = .error f → Fault es i man f

theorem ensures_orStop_faults {α β : Type} {p : Program (Except Failure α)}
    {f : α → Program (Except Failure β)}
    (hp : p.Ensures (Heard es i) (Faults es i man))
    (hf : ∀ a, (f a).Ensures (Heard es i) (Faults es i man)) :
    (p.orStop f).Ensures (Heard es i) (Faults es i man) := by
  refine hp.bind fun o ho => ?_
  cases o with
  | ok a => exact hf a
  | error e =>
    refine ensures_pure fun f' heq => ?_
    cases heq
    exact ho e rfl

theorem kindOf_ensures {g : Group} (hg : g ∈ man.groups) :
    (Cache.kindOf g.type).Ensures (Heard es i) (Faults es i man) := by
  refine Ensures.bind (ensures_request fun a ha => ha.1) fun kind? hheard => ?_
  cases kind? with
  | some k => exact ensures_pure nofun
  | none =>
    refine ensures_pure fun f heq => ?_
    cases heq
    exact .inl ⟨g, hg, rfl, hheard⟩

theorem acquireAll_ensures {t : TypeId} (k : Kind) {names : List NameId}
    (hnames : ∀ n ∈ names, ⟨t, n⟩ ∈ man.handles) :
    (Cache.acquireAll t k names).Ensures (Heard es i) (Faults es i man) := by
  induction names with
  | nil => exact ensures_pure nofun
  | cons n ns ih =>
    refine ensures_orStop_faults (ensures_request fun a ha f hf => ?_) fun _ =>
      ih fun n' hn' => hnames n' (List.mem_cons_of_mem n hn')
    subst hf
    obtain ⟨s, hs, hnamed⟩ := ha.2 f rfl
    exact .inr ⟨_, hnames n List.mem_cons_self, hs ▸ hnamed f rfl, k, ha.1⟩

theorem loadGroups_faults {gs : List Group} (hgs : ∀ g ∈ gs, g ∈ man.groups) :
    (loadGroups gs).Ensures (Heard es i) (Faults es i man) := by
  induction gs with
  | nil => exact ensures_pure nofun
  | cons g gs ih =>
    have hg := hgs g List.mem_cons_self
    refine ensures_orStop_faults ?_ fun _ => ih fun g' hg' =>
      hgs g' (List.mem_cons_of_mem g hg')
    have hnames : ∀ n ∈ g.names, ⟨g.type, n⟩ ∈ man.handles := fun n hn =>
      List.mem_flatMap.2 ⟨g, hg, List.mem_map.2 ⟨n, hn, rfl⟩⟩
    unfold Cache.load
    split
    · exact ensures_pure nofun
    · exact ensures_orStop_faults (kindOf_ensures hg) fun k =>
        acquireAll_ensures k hnames

end

/-- What a load does with the answer that it gets when it asks for its
package. -/
def goOn (p : NameId) :
    Except Failure Representation →
      Program (Except Failure (Except Failure Unit))
  | .error f => pure (.error f)
  | .ok x =>
    match x.content.asPackage? with
    | some man => Except.ok <$> loadGroups man.groups
    | none => pure (.error (.wrongShape (handle p) .package))

theorem schedule_eq (p : NameId) :
    schedule p = .ask (.visit (handle p) .get) (goOn p) := by
  refine congrArg (Program.ask (.visit (handle p) .get)) (funext fun a => ?_)
  rcases a with f | ⟨object, content⟩
  · rfl
  · cases content <;> rfl

/-- Gives up without a manifest, and loads what a manifest lists. -/
theorem goOn_cases (p : NameId) (a : Except Failure Representation) :
    ((∀ x, a = .ok x → x.content.asPackage? = none) ∧
        ∃ f, goOn p a = pure (.error f)) ∨
      ∃ x man, a = .ok x ∧ x.content.asPackage? = some man ∧
        goOn p a = Except.ok <$> loadGroups man.groups := by
  cases a with
  | error f => exact .inl ⟨nofun, f, rfl⟩
  | ok x =>
    cases hx : x.content.asPackage? with
    | none =>
      refine .inl ⟨fun x' heq => ?_,
        .wrongShape (handle p) .package, by simp only [goOn, hx]⟩
      cases heq
      exact hx
    | some man => exact .inr ⟨x, man, rfl, hx, by simp only [goOn, hx]⟩

/-- Ends with an outcome of the load, and a failure says why. -/
def Settles (es : List Event) (i : Nat) (man : Manifest)
    (o : Except Failure (Except Failure Unit)) : Prop :=
  ∃ inner, o = .ok inner ∧ Faults es i man inner

theorem loadListed_ensures (es : List Event) (i : Nat) (man : Manifest) :
    (Except.ok <$> loadGroups man.groups : Program _).Ensures (Heard es i)
      (Settles es i man) :=
  (loadGroups_faults fun _ => id).bind fun inner hinner => ⟨inner, rfl, hinner⟩

section

variable {conduct : Conduct} {m₀ m : Loaders} {es : List Event} {i : Nat}
  {p : NameId}

theorem heard (h₀ : m₀.Starts conduct) (h : Course conduct m₀ es m) (i : Nat)
    (r : Request) (a : r.Reply) (ha : Event.answered i r a ∈ es) :
    Heard es i r a :=
  ⟨ha,
    (h.stores h₀ (yields_named conduct) (renews_named conduct)
      fun _ _ => nofun).2.2 i r a ha⟩

/-- A thread whose only answer is no manifest has not been told of one. -/
theorem not_told {es₁ es₂ : List Event} {a : Except Failure Representation}
    (hfirst : ∀ r b, Event.answered i r b ∉ es₁)
    (hlast : ∀ r b, Event.answered i r b ∉ es₂)
    (ha : ∀ x, a = .ok x → x.content.asPackage? = none) (man : Manifest) :
    ¬ Told (es₂ ++ .answered i (.visit (handle p) .get) a :: es₁) i p man := by
  rintro ⟨x, hx, hman⟩
  rcases List.mem_append.1 hx with hx | hx
  · exact hlast _ _ hx
  · rcases List.mem_cons.1 hx with hx | hx
    · cases hx
      rw [ha x rfl] at hman
      cases hman
    · exact hfirst _ _ hx

/-- A thread that loads a package is still looking for the manifest, or has not
found it and is through, or has found it and is underway. -/
theorem stages (h₀ : m₀.Starts conduct) (h : Course conduct m₀ es m)
    (hi : m₀.threads[i]? = some (.ofProgram (schedule p))) :
    (∃ q next, m.threads[i]? = some (.busy (.visit (handle p) .get) q next)) ∧
        (∀ man, ¬ Told es i p man) ∨
      (∃ f, m.threads[i]? = some (.finished (.error f))) ∧
      (∀ man, ¬ Told es i p man) ∨
      ∃ man t, Told es i p man ∧ m.threads[i]? = some t ∧
        t.Ensures (Heard es i) (Settles es i man) := by
  rw [schedule_eq] at hi
  rcases h.asked hi with
    ⟨⟨q, hq⟩, hunanswered⟩ | ⟨a, es₁, es₂, m₁, rfl, hfirst, hm₁, hrest⟩
  · exact .inl ⟨⟨q, _, hq⟩, fun man ⟨x, hx, _⟩ => hunanswered _ _ hx⟩
  · -- The first answer decides: what follows it asks for no manifest any more.
    rcases goOn_cases p a with ⟨hnone, f, hgoOn⟩ | ⟨x, man, rfl, hx, hgoOn⟩
    · rw [hgoOn] at hm₁
      obtain ⟨hend, hlast⟩ := hrest.finished hm₁
      exact .inr (.inl ⟨⟨f, hend⟩, not_told hfirst hlast hnone⟩)
    · rw [hgoOn] at hm₁
      obtain ⟨t, ht, hensures⟩ :=
        hrest.ensures hm₁
          (Thread.ensures_ofProgram (loadListed_ensures _ i man))
          fun r b hb => heard h₀ h i r b (List.mem_append_left _ hb)
      refine .inr (.inr ⟨man, t, ⟨x, ?_, hx⟩, ht, hensures⟩)
      exact List.mem_append_right es₂ List.mem_cons_self

/-- A load that is over had its manifest. -/
theorem told_of_outcome? (h₀ : m₀.Starts conduct) (h : Course conduct m₀ es m)
    (hi : m₀.threads[i]? = some (.ofProgram (schedule p)))
    {o : Except Failure Unit} (ho : outcome? m i = some o) :
    ∃ man, Told es i p man ∧ Faults es i man o := by
  have hend := outcome?_eq_some_iff.1 ho
  rcases stages h₀ h hi with
    ⟨⟨q, next, hq⟩, -⟩ | ⟨⟨f, hf⟩, -⟩ | ⟨man, t, htold, ht, hsettles⟩
  · cases hq.symm.trans hend
  · cases hf.symm.trans hend
  · cases ht.symm.trans hend
    obtain ⟨inner, heq, hfaults⟩ := hsettles
    cases heq
    exact ⟨man, htold, hfaults⟩

/-- A load that has its manifest comes to an outcome, if it is over. -/
theorem exists_outcome? (h₀ : m₀.Starts conduct) (h : Course conduct m₀ es m)
    (hi : m₀.threads[i]? = some (.ofProgram (schedule p))) {man : Manifest}
    (htold : Told es i p man) {a : Except Failure (Except Failure Unit)}
    (ha : m.threads[i]? = some (.finished a)) : ∃ o, outcome? m i = some o := by
  rcases stages h₀ h hi with ⟨-, hnot⟩ | ⟨-, hnot⟩ | ⟨man', t, -, ht, hsettles⟩
  · exact absurd htold (hnot man)
  · exact absurd htold (hnot man)
  · cases ht.symm.trans ha
    obtain ⟨inner, rfl, -⟩ := hsettles
    exact ⟨inner, outcome?_eq_some_iff.2 ha⟩

/-- What came of a load stays. -/
theorem outcome?_course {es' : List Event} {m' : Loaders}
    (h : Course conduct m es' m') {o : Except Failure Unit}
    (ho : outcome? m i = some o) : outcome? m' i = some o :=
  outcome?_eq_some_iff.2 (h.finished (outcome?_eq_some_iff.1 ho)).1

end

/-! ### Notices -/

/-- What is noticed of the loads and flushes of packages. -/
inductive Notice where
  /-- A load of a package was scheduled, in a thread. -/
  | scheduled (p : NameId) (load : Nat)
  /-- A flush of a package began and took out loads. -/
  | began (p : NameId) (loads : List Nat)
  /-- A flush of a package that had taken out loads came to a result. -/
  | reported (p : NameId) (loads : List Nat) (result : Except Failure Unit)

namespace Notice

/-- The load of a package that was scheduled. -/
def scheduled? (p : NameId) : Notice → Option Nat
  | .scheduled q i => if q = p then some i else none
  | _ => none

/-- Whether a flush of a package began. -/
def begins (p : NameId) : Notice → Bool
  | .began q _ => q = p
  | _ => false

/-- The loads that a flush of a package took out. -/
def taken (p : NameId) : Notice → List Nat
  | .began q loads => if q = p then loads else []
  | _ => []

/-- The flush that began: its package, and the loads that it took out. -/
def began? : Notice → Option (NameId × List Nat)
  | .began p loads => some (p, loads)
  | _ => none

/-- The flush that reported. -/
def reported? : Notice → Option (NameId × List Nat)
  | .reported p loads _ => some (p, loads)
  | _ => none

end Notice

/-- The loads of a package that were scheduled, in order.  Notices are kept with
the latest first. -/
def scheduledLoads (p : NameId) (ns : List Notice) : List Nat :=
  (ns.filterMap (Notice.scheduled? p)).reverse

/-- The loads of a package that were scheduled since a flush of it began
last. -/
def due (p : NameId) (ns : List Notice) : List Nat :=
  scheduledLoads p (ns.takeWhile fun n => !n.begins p)

/-- The loads that flushes of a package took out, one flush after another. -/
def takenLoads (p : NameId) (ns : List Notice) : List Nat :=
  ns.reverse.flatMap (Notice.taken p)

/-- The flushes that have begun and not reported yet. -/
def underway : List Notice → List (NameId × List Nat)
  | [] => []
  | .scheduled _ _ :: ns => underway ns
  | .began p loads :: ns => (p, loads) :: underway ns
  | .reported p loads _ :: ns => (underway ns).erase (p, loads)

section

variable {p q : NameId} {ns : List Notice} {i : Nat}

theorem scheduledLoads_cons (p : NameId) (n : Notice) (ns : List Notice) :
    scheduledLoads p (n :: ns) =
      scheduledLoads p ns ++ (n.scheduled? p).toList := by
  cases hn : n.scheduled? p <;> simp [scheduledLoads, hn]

theorem takenLoads_cons (p : NameId) (n : Notice) (ns : List Notice) :
    takenLoads p (n :: ns) = takenLoads p ns ++ n.taken p := by
  simp [takenLoads]

theorem due_cons_of_begins {n : Notice} (h : n.begins p = true) :
    due p (n :: ns) = [] := by
  simp [due, scheduledLoads, h]

theorem due_cons_of_not_begins {n : Notice} (h : n.begins p = false) :
    due p (n :: ns) = due p ns ++ (n.scheduled? p).toList := by
  simp [due, h, scheduledLoads_cons]

theorem mem_scheduledLoads : i ∈ scheduledLoads p ns ↔ .scheduled p i ∈ ns := by
  simp only [scheduledLoads, List.mem_reverse, List.mem_filterMap]
  constructor
  · rintro ⟨n, hn, hi⟩
    cases n with
    | scheduled q j =>
      by_cases hq : q = p
      · subst hq
        cases (if_pos rfl).symm.trans hi
        exact hn
      · cases (if_neg hq).symm.trans hi
    | began q loads => cases hi
    | reported q loads result => cases hi
  · intro hi
    exact ⟨_, hi, if_pos rfl⟩

theorem mem_of_mem_due (h : i ∈ due p ns) : .scheduled p i ∈ ns :=
  (List.takeWhile_prefix _).subset (mem_scheduledLoads.1 h)

/-- A flush that is underway has begun. -/
theorem began_of_mem_underway {loads : List Nat}
    (h : (p, loads) ∈ underway ns) : .began p loads ∈ ns := by
  induction ns with
  | nil => cases h
  | cons n ns ih =>
    cases n with
    | scheduled q i => exact List.mem_cons_of_mem _ (ih h)
    | began q taken =>
      rcases List.mem_cons.1 h with heq | h
      · cases heq
        exact List.mem_cons_self
      · exact List.mem_cons_of_mem _ (ih h)
    | reported q taken result =>
      exact List.mem_cons_of_mem _ (ih (List.mem_of_mem_erase h))

/-- Nothing is due where nothing was scheduled since. -/
theorem due_eq_nil {between older : List Notice} {loads : List Nat}
    (h : ∀ i, .scheduled p i ∉ between) :
    due p (between ++ .began p loads :: older) = [] := by
  induction between with
  | nil => exact due_cons_of_begins (decide_eq_true rfl)
  | cons n between ih =>
    cases hn : n.begins p with
    | true => exact due_cons_of_begins hn
    | false =>
      have hnone : n.scheduled? p = none := by
        refine Option.eq_none_iff_forall_ne_some.2 fun i hi => h i ?_
        have hmem : i ∈ scheduledLoads p (n :: between) := by
          simp [scheduledLoads_cons, hi]
        exact mem_scheduledLoads.1 hmem
      rw [List.cons_append, due_cons_of_not_begins hn, hnone,
        ih fun i hi => h i (List.mem_cons_of_mem n hi)]
      rfl

end

/-! ### A manager of packages -/

/-- What a manager of packages may do next, with the notice of it and the loads
that wait after it.  Loads are called by their threads. -/
inductive Manages (m₀ : Loaders) (es : List Event) (ns : List Notice)
    (m : Loaders) (w : Pending Nat) : Notice → Pending Nat → Prop where
  /-- Schedules a load that has found its manifest. -/
  | schedule {p : NameId} {i : Nat} {man : Manifest}
      (hi : m₀.threads[i]? = some (.ofProgram (Package.schedule p)))
      (htold : Told es i p man) (hnew : ∀ q, .scheduled q i ∉ ns) :
      Manages m₀ es ns m w (.scheduled p i) (w.add p i)
  /-- Begins a flush. -/
  | begin (p : NameId) : Manages m₀ es ns m w (.began p (w.take p).1)
      (w.take p).2
  /-- Reports what came of the loads of a flush that is underway, once they are
  all over. -/
  | report {p : NameId} {loads : List Nat}
      {outcomes : List (Except Failure Unit)}
      (hbegan : (p, loads) ∈ underway ns)
      (hover : loads.map (outcome? m) = outcomes.map some) :
      Manages m₀ es ns m w (.reported p loads (Package.report p outcomes)) w

/-- What a manager may have done while threads went on. -/
inductive Managed (conduct : Conduct) (m₀ : Loaders) :
    List Event → List Notice → Loaders → Pending Nat → Prop where
  | refl : Managed conduct m₀ [] [] m₀ {}
  | work {es es' : List Event} {ns : List Notice} {m m' : Loaders}
      {w : Pending Nat} (h : Managed conduct m₀ es ns m w)
      (hwork : Course conduct m es' m') : Managed conduct m₀ (es' ++ es) ns m' w
  | act {es : List Event} {ns : List Notice} {m : Loaders} {w w' : Pending Nat}
      {n : Notice} (h : Managed conduct m₀ es ns m w)
      (hact : Manages m₀ es ns m w n w') : Managed conduct m₀ es (n :: ns) m w'

section

variable {conduct : Conduct} {m₀ m : Loaders} {es : List Event}
  {ns newer older : List Notice} {w : Pending Nat} {n : Notice}

theorem Managed.course (h : Managed conduct m₀ es ns m w) :
    Course conduct m₀ es m := by
  induction h with
  | refl => exact .refl
  | work _ hwork ih => exact ih.trans hwork
  | act _ _ ih => exact ih

/-- How it came to a notice, and what threads did since. -/
theorem Managed.exists_act
    (h : Managed conduct m₀ es (newer ++ n :: older) m w) :
    ∃ es₁ es₂ m₁ w₁ w₁',
      Managed conduct m₀ es₁ older m₁ w₁ ∧ Manages m₀ es₁ older m₁ w₁ n w₁' ∧
      Course conduct m₁ es₂ m ∧ es = es₂ ++ es₁ := by
  generalize hns : newer ++ n :: older = ns at h
  induction h generalizing newer with
  | refl => simp at hns
  | work _ hwork ih =>
    obtain ⟨es₁, es₂, m₁, w₁, w₁', hm, hact, hcourse, rfl⟩ := ih hns
    exact ⟨es₁, _, m₁, w₁, w₁', hm, hact, hcourse.trans hwork,
      (List.append_assoc ..).symm⟩
  | act h hact ih =>
    cases newer with
    | nil =>
      cases hns
      exact ⟨_, [], _, _, _, h, hact, .refl, rfl⟩
    | cons n' newer =>
      obtain ⟨es₁, es₂, m₁, w₁, w₁', hm, hact', hcourse, hes⟩ :=
        ih (List.cons.inj hns).2
      exact ⟨es₁, es₂, m₁, w₁, w₁', hm, hact', hcourse, hes⟩

/-- What waits is what is due. -/
theorem Managed.waiting (h : Managed conduct m₀ es ns m w) (p : NameId) :
    w.waiting p = due p ns := by
  induction h with
  | refl => rfl
  | work _ _ ih => exact ih
  | @act _ ns _ w _ _ _ hact ih =>
    cases hact with
    | @schedule q i man hi htold hnew =>
      rw [due_cons_of_not_begins rfl, ← ih]
      by_cases hq : p = q
      · subst hq
        simp [Pending.waiting_add_self, Notice.scheduled?]
      · simp [Pending.waiting_add_of_ne w hq, Notice.scheduled?, Ne.symm hq]
    | begin q =>
      cases hn : (Notice.began q (w.take q).1).begins p with
      | true =>
        obtain rfl : q = p := of_decide_eq_true hn
        rw [due_cons_of_begins hn, Pending.waiting_take_self]
      | false =>
        have hq : p ≠ q := Ne.symm (of_decide_eq_false hn)
        rw [due_cons_of_not_begins hn, ← ih, Pending.waiting_take_of_ne w hq]
        exact (List.append_nil _).symm
    | report hbegan hover =>
      rw [due_cons_of_not_begins rfl, ← ih]
      exact (List.append_nil _).symm

/-- A flush takes out what is due. -/
theorem Managed.eq_due {p : NameId} {loads : List Nat}
    (h : Managed conduct m₀ es (newer ++ .began p loads :: older) m w) :
    loads = due p older := by
  obtain ⟨es₁, es₂, m₁, w₁, w₁', hm, hact, -, -⟩ := h.exists_act
  cases hact
  exact hm.waiting p

/-- Each load of a package that was scheduled has been taken out, or is due. -/
theorem Managed.takenLoads_append_due (h : Managed conduct m₀ es ns m w)
    (p : NameId) : takenLoads p ns ++ due p ns = scheduledLoads p ns := by
  induction h with
  | refl => rfl
  | work _ _ ih => exact ih
  | @act _ ns _ w _ n hm hact ih =>
    rw [takenLoads_cons, scheduledLoads_cons, ← ih]
    cases hn : n.begins p with
    | true =>
      -- What is due moves over to what is taken, and nothing is due.
      cases hact with
      | schedule hi htold hnew => cases hn
      | begin q =>
        obtain rfl : q = p := of_decide_eq_true hn
        rw [due_cons_of_begins hn, ← hm.waiting q]
        simp [Notice.taken, Notice.scheduled?, Pending.take]
      | report hbegan hover => cases hn
    | false =>
      have htaken : n.taken p = [] := by
        cases n with
        | scheduled q i => rfl
        | began q loads => exact if_neg (of_decide_eq_false hn)
        | reported q loads result => rfl
      rw [due_cons_of_not_begins hn, htaken, List.append_nil, List.append_assoc]

/-- Each flush that began has reported, and then once only, or is underway. -/
theorem Managed.perm_began (h : Managed conduct m₀ es ns m w) :
    (ns.filterMap Notice.reported? ++ underway ns).Perm
      (ns.filterMap Notice.began?) := by
  induction h with
  | refl => exact .refl []
  | work _ _ ih => exact ih
  | act _ hact ih =>
    cases hact with
    | schedule hi htold hnew => exact ih
    | begin p => exact List.perm_middle.trans (ih.cons _)
    | report hbegan hover =>
      -- What leaves the flushes underway joins those that reported.
      exact List.perm_middle.symm.trans
        (((List.perm_cons_erase hbegan).symm.append_left _).trans ih)

/-- Who has been scheduled loads the package and has its manifest. -/
theorem Managed.scheduled (h : Managed conduct m₀ es ns m w) {p : NameId}
    {i : Nat} (hi : .scheduled p i ∈ ns) :
    m₀.threads[i]? = some (.ofProgram (schedule p)) ∧
      ∃ man, Told es i p man := by
  obtain ⟨newer, older, rfl⟩ := List.append_of_mem hi
  obtain ⟨es₁, es₂, m₁, w₁, w₁', hm, hact, -, rfl⟩ := h.exists_act
  cases hact with
  | @schedule _ _ man hthread htold hnew =>
    obtain ⟨x, hx, hman⟩ := htold
    exact ⟨hthread, man, x, List.mem_append_right _ hx, hman⟩

/-- Nothing is scheduled twice. -/
theorem Managed.nodup_scheduledLoads (h : Managed conduct m₀ es ns m w)
    (p : NameId) : (scheduledLoads p ns).Nodup := by
  induction h with
  | refl => exact List.nodup_nil
  | work _ _ ih => exact ih
  | act _ hact ih =>
    rw [scheduledLoads_cons]
    cases hact with
    | @schedule q i man hi htold hnew =>
      by_cases hq : q = p
      · have hnot : i ∉ scheduledLoads p _ :=
          fun hmem => hnew p (mem_scheduledLoads.1 hmem)
        simpa [Notice.scheduled?, hq, List.nodup_append] using
          ⟨ih, fun j hj heq => hnot (heq ▸ hj)⟩
      · simpa [Notice.scheduled?, hq] using ih
    | begin q => simpa [Notice.scheduled?] using ih
    | report hbegan hover => simpa [Notice.scheduled?] using ih

end

/-! ### Reports -/

theorem exists_of_firstFailure? {outcomes : List (Except Failure Unit)}
    {f : Failure} (h : firstFailure? outcomes = some f) :
    ∃ earlier later, outcomes = earlier ++ .error f :: later ∧
      ∀ o ∈ earlier, o = .ok () := by
  induction outcomes with
  | nil => cases h
  | cons o rest ih =>
    cases o with
    | ok u =>
      obtain ⟨earlier, later, rfl, hok⟩ := ih h
      exact ⟨.ok () :: earlier, later, rfl, List.forall_mem_cons.2 ⟨rfl, hok⟩⟩
    | error f' =>
      cases h
      exact ⟨[], rest, rfl, nofun⟩

/-- What a flush reports of loads that it has taken out, with threads where `m`
has them: they are all over; it fails if one of them did; and the failure is the
cause that the earliest of those gives, with the reason why that one failed. -/
structure Reports (es : List Event) (m : Loaders) (p : NameId)
    (loads : List Nat) (result : Except Failure Unit) : Prop where
  settled : ∀ i ∈ loads, ∃ o, outcome? m i = some o
  fails : (∃ e, result = .error e) ↔ ∃ i ∈ loads, ∃ f,
    outcome? m i = some (.error f)
  earliest : ∀ e, result = .error e → ∃ earlier i later f man,
    loads = earlier ++ i :: later ∧
      (∀ j ∈ earlier, outcome? m j = some (.ok ())) ∧
      outcome? m i = some (.error f) ∧ e = .during (.loadPackage p) f ∧
      Told es i p man ∧
      Fault es i man f

section

variable {conduct : Conduct} {m₀ m m' : Loaders} {es es' : List Event}
  {ns newer older : List Notice} {w : Pending Nat} {p : NameId}
  {loads : List Nat}

/-- Loads that are over with outcomes, one by one. -/
theorem exists_of_map_outcome? {outcomes : List (Except Failure Unit)}
    (hover : loads.map (outcome? m) = outcomes.map some) {i : Nat}
    (hi : i ∈ loads) : ∃ o ∈ outcomes, outcome? m i = some o := by
  have hmem : outcome? m i ∈ outcomes.map some := hover ▸ List.mem_map_of_mem hi
  obtain ⟨o, ho, heq⟩ := List.mem_map.1 hmem
  exact ⟨o, ho, heq.symm⟩

theorem exists_map_outcome? (h : ∀ i ∈ loads, ∃ o, outcome? m i = some o) :
    ∃ outcomes : List (Except Failure Unit),
      loads.map (outcome? m) = outcomes.map some := by
  induction loads with
  | nil => exact ⟨[], rfl⟩
  | cons i loads ih =>
    obtain ⟨o, ho⟩ := h i List.mem_cons_self
    obtain ⟨outcomes, houtcomes⟩ :=
      ih fun j hj => h j (List.mem_cons_of_mem i hj)
    exact ⟨o :: outcomes, by rw [List.map_cons, List.map_cons, ho, houtcomes]⟩

theorem map_outcome?_course (h : Course conduct m es' m')
    {outcomes : List (Except Failure Unit)}
    (hover : loads.map (outcome? m) = outcomes.map some) :
    loads.map (outcome? m') = outcomes.map some := by
  rw [← hover]
  refine List.map_congr_left fun i hi => ?_
  obtain ⟨o, -, ho⟩ := exists_of_map_outcome? hover hi
  rw [ho, outcome?_course h ho]

/-- What a flush took out has been scheduled. -/
theorem Managed.scheduled_of_began (h : Managed conduct m₀ es ns m w)
    (hbegan : .began p loads ∈ ns) : ∀ i ∈ loads, .scheduled p i ∈ ns := by
  intro i hi
  obtain ⟨newer, older, rfl⟩ := List.append_of_mem hbegan
  rw [h.eq_due] at hi
  exact List.mem_append_right _ (List.mem_cons_of_mem _ (mem_of_mem_due hi))

/-- The first failure among outcomes is that of the earliest load that
failed. -/
theorem exists_earliest {outcomes : List (Except Failure Unit)} {f : Failure}
    (hover : loads.map (outcome? m) = outcomes.map some)
    (hf : firstFailure? outcomes = some f) :
    ∃ earlier i later, loads = earlier ++ i :: later ∧
      (∀ j ∈ earlier, outcome? m j = some (.ok ())) ∧
      outcome? m i = some (.error f) := by
  obtain ⟨before, after, rfl, hok⟩ := exists_of_firstFailure? hf
  rw [List.map_append, List.map_cons] at hover
  obtain ⟨earlier, rest, rfl, hearlier, hrest⟩ := List.map_eq_append_iff.1 hover
  obtain ⟨i, later, rfl, hi, -⟩ := List.map_eq_cons_iff.1 hrest
  refine ⟨earlier, i, later, rfl, fun j hj => ?_, hi⟩
  obtain ⟨o, ho, heq⟩ := exists_of_map_outcome? hearlier hj
  rw [heq, hok o ho]

theorem Managed.reports (h₀ : m₀.Starts conduct)
    (h : Managed conduct m₀ es ns m w) (hbegan : .began p loads ∈ ns)
    {outcomes : List (Except Failure Unit)}
    (hover : loads.map (outcome? m) = outcomes.map some) :
    Reports es m p loads (report p outcomes) := by
  have hsettled : ∀ i ∈ loads, ∃ o, outcome? m i = some o := by
    intro i hi
    obtain ⟨o, -, ho⟩ := exists_of_map_outcome? hover hi
    exact ⟨o, ho⟩
  rw [report]
  cases hfirst : firstFailure? outcomes with
  | none =>
    have hnone : ¬ ∃ i ∈ loads, ∃ f, outcome? m i = some (.error f) := by
      rintro ⟨i, hi, f, hf⟩
      obtain ⟨o, ho, heq⟩ := exists_of_map_outcome? hover hi
      cases hf.symm.trans heq
      cases firstFailure?_eq_none_iff.1 hfirst _ ho
    refine ⟨hsettled, iff_of_false ?_ hnone, fun e he => ?_⟩
    · rintro ⟨e, he⟩
      cases he
    · cases he
  | some f =>
    -- The load that gives the failure was scheduled, so it has its manifest and
    -- says why.
    obtain ⟨earlier, i, later, rfl, hearlier, hi⟩ :=
      exists_earliest hover hfirst
    refine ⟨hsettled, iff_of_true ⟨_, rfl⟩ ⟨i, by simp, f, hi⟩, fun e he => ?_⟩
    cases he
    have hscheduled := h.scheduled_of_began hbegan i (by simp)
    obtain ⟨man, htold, hfaults⟩ :=
      told_of_outcome? h₀ h.course (h.scheduled hscheduled).1 hi
    exact ⟨earlier, i, later, f, man, rfl, hearlier, hi, rfl, htold,
      hfaults f rfl⟩

/-- A manager of packages, whatever is loaded and flushed in which order.  What
waits for a flush of a package is what was scheduled since the last, and a flush
takes it out and leaves what waits for other packages; so each load is taken out
once.  A flush reports of what it took out: it fails if one of these loads did,
and with the earliest of these failures.  A flush that takes out nothing, such
as one that follows another with no load scheduled in between, goes well.  Each
flush that began has reported once or is underway, and once its loads are over
it can report. -/
theorem flushes (h₀ : m₀.Starts conduct) (h : Managed conduct m₀ es ns m w) :
    (∀ p, (w.take p).1 = due p ns ∧ (w.take p).2.waiting p = [] ∧
      ∀ q, q ≠ p → (w.take p).2.waiting q = due q ns) ∧
    (∀ p newer loads older, ns = newer ++ .began p loads :: older →
      loads = due p older) ∧
    (∀ p, takenLoads p ns ++ due p ns = scheduledLoads p ns ∧
      (scheduledLoads p ns).Nodup) ∧
    (∀ p newer loads result older,
      ns = newer ++ .reported p loads result :: older →
      (p, loads) ∈ underway older ∧ .began p loads ∈ older ∧
        Reports es m p loads result) ∧
    (∀ p newer loads between taken older,
      ns = newer ++ .began p loads :: (between ++ .began p taken :: older) →
      (∀ i, .scheduled p i ∉ between) →
      loads = [] ∧ ∀ result, .reported p loads result ∈ ns → result = .ok ()) ∧
    (ns.filterMap Notice.reported? ++ underway ns).Perm
      (ns.filterMap Notice.began?) ∧
    ∀ p loads, (p, loads) ∈ underway ns →
      (∀ i ∈ loads, ∃ a, m.threads[i]? = some (.finished a)) →
      ∃ result, Managed conduct m₀ es (.reported p loads result :: ns) m w := by
  have hreported : ∀ p newer loads result older,
      ns = newer ++ .reported p loads result :: older →
      (p, loads) ∈ underway older ∧ .began p loads ∈ older ∧
      Reports es m p loads result := by
    rintro p newer loads result older rfl
    obtain ⟨es₁, es₂, m₁, w₁, w₁', hm, hact, hcourse, rfl⟩ := h.exists_act
    cases hact with
    | report hbegan hover =>
      -- The outcomes that the report was made of have not changed since.
      have hlater := map_outcome?_course hcourse hover
      have hold := began_of_mem_underway hbegan
      exact ⟨hbegan, hold, h.reports h₀ (by simp [hold]) hlater⟩
  refine ⟨fun p => ⟨h.waiting p, w.waiting_take_self p, fun q hq => ?_⟩, ?_,
    fun p => ⟨h.takenLoads_append_due p, h.nodup_scheduledLoads p⟩,
    hreported, ?_,
    h.perm_began, ?_⟩
  · rw [w.waiting_take_of_ne hq, h.waiting q]
  · rintro p newer loads older rfl
    exact h.eq_due
  · rintro p newer loads between taken older rfl hbetween
    have hnil : loads = [] := h.eq_due.trans (due_eq_nil hbetween)
    refine ⟨hnil, fun result hmem => ?_⟩
    obtain ⟨newer', older', hsplit⟩ := List.append_of_mem hmem
    obtain ⟨-, -, hreports⟩ := hreported p newer' loads result older' hsplit
    cases result with
    | ok u => rfl
    | error e =>
      obtain ⟨i, hi, -⟩ := hreports.fails.1 ⟨e, rfl⟩
      rw [hnil] at hi
      cases hi
  · intro p loads hbegan hthrough
    have hover : ∀ i ∈ loads, ∃ o, outcome? m i = some o := by
      intro i hi
      obtain ⟨a, ha⟩ := hthrough i hi
      obtain ⟨hthread, man, htold⟩ :=
        h.scheduled (h.scheduled_of_began (began_of_mem_underway hbegan) i hi)
      exact exists_outcome? h₀ h.course hthread htold ha
    obtain ⟨outcomes, houtcomes⟩ := exists_map_outcome? hover
    exact ⟨_, h.act (.report hbegan houtcomes)⟩

end

/-- A handle of which the source has no bytes. -/
def missingHandle : Handle := ⟨theirs.type, ⟨99⟩⟩

/-- One who adds a package that lists the missing handle, and one who loads the
package. -/
def missingLoaders : Loaders :=
  packageCallers
    [Except.map .ok <$> Cache.addLoaded (handle crate)
      (.package ⟨[⟨missingHandle.type, [missingHandle.name]⟩]⟩),
      schedule crate]

theorem starts_missingLoaders : missingLoaders.Starts packageConduct := by
  apply starts_packageCallers
  intro p hp
  rcases List.mem_cons.1 hp with rfl | hp
  · exact (Cache.addLoaded_honest _ _).bind fun _ _ => honest_pure _ _
  · rw [List.mem_singleton.1 hp]
    exact schedule_honest crate

/-- Why the load of the package failed, if it did. -/
def failure? (m : Loaders) : Option Failure :=
  match outcome? m 1 with
  | some (.error f) => some f
  | _ => none

/-- The package is loaded, and flushed twice.  The first flush fails for the
missing handle, and the second goes well. -/
theorem flushes_of_missing :
    missingLoaders.Starts packageConduct ∧ ∃ es m w first second,
      Managed packageConduct missingLoaders es
        [.reported crate [] second, .began crate [], .reported crate [1] first,
          .began crate [1], .scheduled crate 1] m w ∧
      (∃ f, first = .error (.during (.loadPackage crate) f) ∧
        f.handle? = some missingHandle) ∧
      second = .ok () := by
  have hrun := exists_course packageConduct missingLoaders
    (List.replicate 14 1 ++ List.replicate 9 0)
    (P := fun _ m => (failure? m).bind Failure.handle? = some missingHandle)
    (by decide +kernel)
  obtain ⟨es, m, hrun, hend⟩ := hrun
  obtain ⟨f, hfailure, hscarce⟩ :=
    Option.bind_eq_some_iff.1 (of_decide_eq_true hend)
  have hone : outcome? m 1 = some (.error f) := by
    unfold failure? at hfailure
    split at hfailure
    · rename_i heq
      cases hfailure
      exact heq
    · cases hfailure
  have hthread : missingLoaders.threads[1]? =
      some (.ofProgram (schedule crate)) := rfl
  obtain ⟨man, htold, -⟩ :=
    told_of_outcome? starts_missingLoaders hrun hthread hone
  have hwork : Managed packageConduct missingLoaders es [] m {} :=
    List.append_nil es ▸ Managed.refl.work hrun
  have hfirst : Managed packageConduct missingLoaders es
      [.began crate [1], .scheduled crate 1] m _ :=
    (hwork.act (.schedule hthread htold (by simp))).act (.begin crate)
  have hthrough : ∀ i ∈ [1], ∃ a, m.threads[i]? = some (.finished a) := by
    intro i hi
    rw [List.mem_singleton.1 hi]
    exact ⟨_, outcome?_eq_some_iff.1 hone⟩
  obtain ⟨-, -, -, -, -, -, hreport⟩ := flushes starts_missingLoaders hfirst
  obtain ⟨first, hreported⟩ := hreport crate [1] (by simp [underway]) hthrough
  have hsecond : Managed packageConduct missingLoaders es
      (.began crate [] :: _) m _ :=
    hreported.act (.begin crate)
  obtain ⟨-, -, -, -, -, -, hreport⟩ := flushes starts_missingLoaders hsecond
  obtain ⟨second, hagain⟩ := hreport crate [] (by simp [underway]) nofun
  obtain ⟨-, -, -, hreports, hrepeated, -⟩ :=
    flushes starts_missingLoaders hagain
  refine ⟨starts_missingLoaders, es, m, _, first, second, hagain, ?_, ?_⟩
  · obtain ⟨-, -, hone'⟩ := hreports crate [_, _] [1] first _ rfl
    obtain ⟨e, rfl⟩ := hone'.fails.2 ⟨1, by simp, f, hone⟩
    obtain ⟨earlier, i, later, f', man', hsplit, -, hi, rfl, -⟩ :=
      hone'.earliest e rfl
    obtain rfl : i = 1 := by
      have hmem : i ∈ [1] := hsplit ▸ by simp
      exact List.mem_singleton.1 hmem
    cases hone.symm.trans hi
    exact ⟨f, rfl, hscarce⟩
  · exact (hrepeated crate [_] [] [_] [1] _ rfl (by simp)).2 second (by simp)

end Package

end ResourceHost
