import ResourceHost.Package.Loading

/-!
# What a program has in hand

A program may look only at slots that the table gave out, and may load or add
only resources whose type it was told is registered.  Such a program is
`Honest`; every operation that a cache offers is, and so are those on packages.

What a resource type does is not fixed: its callbacks may have a state of their
own, so at different moments it acts as different kinds.  `Conduct` says which.
-/

namespace ResourceHost

/-- The kinds that the resource type of a type may act as. -/
abbrev Conduct := TypeId → Kind → Prop

/-- What a program was given by answers. -/
structure Hand where
  /-- Slots that the table listed. -/
  slots : List SlotId := []
  /-- Kinds that the registry gave out, with their types. -/
  kinds : List (TypeId × Kind) := []

/-- A kind that the registry gave out for a type, as it was then or as it may
act by now. -/
def Hand.Has (conduct : Conduct) (hand : Hand) (t : TypeId) (k : Kind) : Prop :=
  ∃ k₀, (t, k₀) ∈ hand.kinds ∧ (k = k₀ ∨ k.identity = k₀.identity ∧ conduct t k)

/-- What is in hand after an answer. -/
def Hand.after (hand : Hand) : (r : Request) → r.Reply → Hand
  | .slots, ss => { hand with slots := ss ++ hand.slots }
  | .kind t, some k => { hand with kinds := (t, k) :: hand.kinds }
  | _, _ => hand

/-- Asks only about what is in hand, and registers only what acts as it may. -/
def Request.Honest (conduct : Conduct) (hand : Hand) : Request → Prop
  | .register t k => conduct t k
  | .stateOf s => s ∈ hand.slots
  | .acquire h k | .add h k _ => hand.Has conduct h.type k
  | _ => True

namespace Program

variable {α β : Type} {conduct : Conduct}

/-- Every request of the program is honest, whatever the answers are. -/
def Honest (conduct : Conduct) : Program α → Hand → Prop
  | .done _, _ => True
  | .ask r next, hand =>
    r.Honest conduct hand ∧ ∀ a, (next a).Honest conduct (hand.after r a)

theorem honest_pure (a : α) (hand : Hand) :
    (pure a : Program α).Honest conduct hand := trivial

theorem honest_request {r : Request} {hand : Hand}
    (hr : r.Honest conduct hand) : (request r).Honest conduct hand :=
  ⟨hr, fun _ => trivial⟩

theorem Honest.bind {p : Program α} {f : α → Program β} {hand : Hand}
    (hp : p.Honest conduct hand) (hf : ∀ a hand', (f a).Honest conduct hand') :
    (p >>= f).Honest conduct hand := by
  show (p.andThen f).Honest conduct hand
  induction p generalizing hand with
  | done a => exact hf a hand
  | ask r next ih => exact ⟨hp.1, fun a => ih a (hp.2 a)⟩

theorem Honest.orStop {p : Program (Except Failure α)}
    {f : α → Program (Except Failure β)} {hand : Hand}
    (hp : p.Honest conduct hand) (hf : ∀ a hand', (f a).Honest conduct hand') :
    (p.orStop f).Honest conduct hand := by
  refine hp.bind fun a hand' => ?_
  cases a with
  | ok a => exact hf a hand'
  | error f => exact honest_pure _ _

end Program

/-! ### Every operation is honest -/

namespace Cache

open Program

variable {conduct : Conduct} {hand : Hand}

theorem registerKind_honest {t : TypeId} {k : Kind} (hk : conduct t k) :
    (registerKind t k).Honest conduct hand :=
  honest_request hk

/-- What follows the look into the registry has the kind in hand. -/
theorem kindOf_orStop_honest {β : Type} {t : TypeId}
    {f : Kind → Program (Except Failure β)}
    (hf : ∀ k hand', (t, k) ∈ hand'.kinds → (f k).Honest conduct hand') :
    ((kindOf t).orStop f).Honest conduct hand := by
  refine ⟨trivial, fun k? => ?_⟩
  cases k? with
  | none => exact honest_pure _ _
  | some k => exact hf k _ (by simp [Hand.after])

theorem acquireAll_honest {t : TypeId} {k : Kind} (names : List NameId)
    (hk : (t, k) ∈ hand.kinds) :
    (acquireAll t k names).Honest conduct hand := by
  induction names with
  | nil => exact honest_pure _ _
  | cons n ns ih =>
    refine ⟨⟨k, hk, .inl rfl⟩, fun a => ?_⟩
    cases a with
    | ok _ => exact ih
    | error f => exact honest_pure _ _

theorem load_honest (t : TypeId) (names : List NameId) :
    (load t names).Honest conduct hand := by
  unfold load
  split
  · exact honest_pure _ _
  · exact kindOf_orStop_honest fun k _ hk => acquireAll_honest names hk

theorem addLoaded_honest (h : Handle) (content : Content) :
    (addLoaded h content).Honest conduct hand :=
  kindOf_orStop_honest fun k _ hk => honest_request ⟨k, hk, .inl rfl⟩

theorem visit_honest (h : Handle) (v : Visit) :
    (request (.visit h v)).Honest conduct hand :=
  honest_request trivial

theorem get_honest (h : Handle) : (get h).Honest conduct hand :=
  visit_honest h .get

theorem getOrLoad_honest (h : Handle) : (getOrLoad h).Honest conduct hand := by
  refine (honest_request (r := .autoload) trivial).bind fun on hand' => ?_
  split
  · refine (honest_request (r := .isListed h) trivial).bind
      fun listed hand'' => ?_
    split
    · exact get_honest h
    · exact (load_honest h.type [h.name]).orStop fun _ _ => get_honest h
  · exact get_honest h

theorem state_honest (h : Handle) : (state h).Honest conduct hand :=
  visit_honest h .state

theorem canGet_honest (h : Handle) : (canGet h).Honest conduct hand :=
  (state_honest h).bind fun _ _ => honest_pure _ _

theorem canGetAll_honest (t : TypeId) (names : List NameId) :
    (canGetAll t names).Honest conduct hand := by
  induction names generalizing hand with
  | nil => exact honest_pure _ _
  | cons n ns ih =>
    refine (canGet_honest _).bind fun b hand' => ?_
    split
    · exact ih
    · exact honest_pure _ _

theorem refCount_honest (h : Handle) : (refCount h).Honest conduct hand :=
  visit_honest h .refCount

theorem release_honest (h : Handle) : (release h).Honest conduct hand :=
  visit_honest h .release

theorem countSlots_honest {ss : List SlotId} {stats : Stats}
    (hs : ∀ s ∈ ss, s ∈ hand.slots) :
    (countSlots ss stats).Honest conduct hand := by
  induction ss generalizing stats with
  | nil => exact honest_pure _ _
  | cons s rest ih =>
    exact ⟨hs s (by simp), fun _ => ih fun s' hs' => hs s' (by simp [hs'])⟩

theorem stats_honest : stats.Honest conduct hand :=
  ⟨trivial,
    fun ss => countSlots_honest fun s hs => by simpa [Hand.after] using .inl hs⟩

theorem offline_honest (h : Handle) : (offline h).Honest conduct hand :=
  visit_honest h .offline

theorem online_honest (h : Handle) : (online h).Honest conduct hand :=
  visit_honest h .online

theorem reload_honest (h : Handle) (bytes : List UInt8) :
    (reload h bytes).Honest conduct hand :=
  visit_honest h (.reload bytes)

theorem reloadFromSource_honest (t : TypeId) (names : List NameId) :
    (reloadFromSource t names).Honest conduct hand := by
  induction names generalizing hand with
  | nil => exact honest_pure _ _
  | cons n ns ih =>
    refine Honest.orStop ?_ fun bytes _ =>
      (reload_honest _ bytes).orStop fun _ _ => ih
    refine (honest_request (r := .read ⟨t, n⟩) trivial).bind fun a hand' => ?_
    cases a with
    | ok bytes => exact honest_pure _ _
    | error why => exact honest_pure _ _

theorem reloadEach_honest (hs : List Handle) (report : ReloadReport) :
    (reloadEach hs report).Honest conduct hand := by
  induction hs generalizing report hand with
  | nil => exact honest_pure _ _
  | cons h hs ih =>
    refine (state_honest h).bind fun s hand' => ?_
    split
    · refine (reloadFromSource_honest _ _).bind fun a hand'' => ?_
      cases a with
      | ok _ => exact ih _
      | error f => exact ih _
    · exact ih report

theorem reloadAll_honest : reloadAll.Honest conduct hand :=
  (honest_request (r := .handles) trivial).bind fun hs _ =>
    reloadEach_honest (Handle.sort hs) {}

theorem unload_honest (h : Handle) : (unload h).Honest conduct hand :=
  visit_honest h .unload

theorem unloadAll_honest (t : TypeId) (names : List NameId) :
    (unloadAll t names).Honest conduct hand := by
  induction names generalizing hand with
  | nil => exact honest_pure _ _
  | cons n ns ih => exact (unload_honest _).orStop fun _ _ => ih

end Cache

namespace Package

open Program Cache

variable {conduct : Conduct} {hand : Hand}

theorem manifest_honest (p : NameId) : (manifest p).Honest conduct hand := by
  apply (get_honest _).orStop
  intro x hand'
  split <;> exact honest_pure _ _

theorem loadGroups_honest (gs : List Group) :
    (loadGroups gs).Honest conduct hand := by
  induction gs generalizing hand with
  | nil => exact honest_pure _ _
  | cons g gs ih => exact (load_honest _ _).orStop fun _ _ => ih

theorem schedule_honest (p : NameId) : (schedule p).Honest conduct hand := by
  apply (manifest_honest p).orStop
  intro m hand'
  exact (loadGroups_honest m.groups).bind fun _ _ => honest_pure _ _

theorem releaseAll_honest (t : TypeId) (ns : List NameId)
    (unused : List NameId) : (releaseAll t unused ns).Honest conduct hand := by
  induction ns generalizing unused hand with
  | nil => exact honest_pure _ _
  | cons n ns ih =>
    apply (release_honest _).bind
    intro a hand'
    split <;> exact ih _

theorem unloadGroups_honest (gs : List Group) :
    (unloadGroups gs).Honest conduct hand := by
  induction gs generalizing hand with
  | nil => exact honest_pure _ _
  | cons g gs ih =>
    apply (releaseAll_honest _ _ _).bind
    intro unused hand'
    exact (unloadAll_honest _ _).orStop fun _ _ => ih

theorem unload_honest (p : NameId) : (unload p).Honest conduct hand :=
  (manifest_honest p).orStop fun m _ => unloadGroups_honest m.groups

end Package

end ResourceHost
