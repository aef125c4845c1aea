import ResourceHost.Proofs.Package.Balance
import ResourceHost.Proofs.Package.Ledgers

/-!
# Holders beside packages

While packages are loaded and unloaded, what direct callers hold is counted, and
nothing that they hold is evicted, as long as the record is fair: an unload
finds no more in the manifest than its own load has taken, and nobody takes a
reference between the release that finds none left and the eviction that follows
from it.  Without either the direct callers can lose what they hold.
-/

namespace ResourceHost

namespace Event

/-- The references to a handle that direct callers hold. -/
def held (role : Nat → Role) (h : Handle) (es : List Event) : Nat :=
  takenBy (account role) none h es - droppedBy (account role) none h es

/-- Nothing is unloaded that a direct caller holds. -/
def spares (role : Nat → Role) : Event → List Event → Bool
  | .did _ s .unloaded, es => held role s.handle es = 0
  | _, _ => true

variable {test : Event → List Event → Bool} {es : List Event} {r : Request}
  {p : Point r} {c : Cache} {mv : Move r} {i : Nat}

/-- A test of deeds is passed by what is recorded of a move if its deed
passes. -/
theorem always_events (hes : always test es = true)
    (hanswered : ∀ i r a es, test (.answered i r a) es = true)
    (hbefell : ∀ x es, test (.befell x) es = true)
    (hdid : ∀ s d, p.deed? c = some (s, d) →
      test (.did i s d)
      (((mv.happening? p c).map Event.befell).toList ++ es) = true) :
    always test (mv.events i p c ++ es) = true := by
  have hquiet : always test (((mv.happening? p c).map Event.befell).toList ++
      es) = true := by
    cases mv.happening? p c with
    | none => exact hes
    | some x => exact Bool.and_eq_true_iff.2 ⟨hbefell x es, hes⟩
  have hmarks : always test (mv.marks i p c ++ es) = true := by
    rw [Move.marks, List.append_assoc]
    cases hd : p.deed? c with
    | none => exact hquiet
    | some x => exact Bool.and_eq_true_iff.2 ⟨hdid x.1 x.2 hd, hquiet⟩
  rw [Move.events, List.append_assoc]
  cases mv.answer? with
  | none => exact hmarks
  | some a => exact Bool.and_eq_true_iff.2 ⟨hanswered i r a _, hmarks⟩

end Event

namespace Machine

open Event

variable {α : Type} {role : Nat → Role} {es : List Event} {m m₀ m' : Machine α}
  {conduct : Conduct}

/-- The books are in order along a fair course. -/
theorem Course.solvent (hr : Course conduct m₀ es m) (h₀ : m₀.Starts conduct)
    (hstaff : m₀.Staffed role) (hf : Fair role es) : m.Solvent role es := by
  induction hr with
  | refl => exact hstaff.solvent
  | step hr hs ih => exact (ih hf.of_append).step hstaff (hr.inv h₀) hs hf
  | drift hr hc ih => exact (ih hf).drift hc
  | stir hr i ih => exact (ih hf).stir i

/-- What direct callers hold is counted. -/
theorem Solvent.held_le (hs : m.Solvent role es) (h : Handle) :
    held role h es ≤ m.cache.refs h := by
  have htaken := hs.taken_le none h
  unfold held
  omega

/-- A step unloads nothing that direct callers hold. -/
theorem Solvent.spares_step (hs : m.Solvent role es) (hinv : m.Inv conduct)
    {i : Nat} (hstep : m.step i = some m') (hf : Fair role (m.events i ++ es))
    (hes : always (spares role) es = true) :
    always (spares role) (m.events i ++ es) = true := by
  obtain ⟨r, p, next, mv, hi, hmv, hev, rfl⟩ := step_cases hstep
  rw [hev] at hf ⊢
  apply always_events hes (fun _ _ _ _ => rfl) (fun _ _ => rfl)
  intro s d hd
  cases d with
  | unloaded =>
    have hheld := hs.held_le s.handle
    rw [hs.refs_of_unloaded hinv hi hmv hf hd] at hheld
    apply decide_eq_true
    cases mv.happening? p m.cache <;> exact Nat.le_zero.1 hheld
  | _ => rfl

theorem Course.spares (hr : Course conduct m₀ es m) (h₀ : m₀.Starts conduct)
    (hstaff : m₀.Staffed role) (hf : Fair role es) :
    always (Event.spares role) es = true := by
  induction hr with
  | refl => rfl
  | step hr hs ih =>
    have hbefore := hf.of_append
    exact (hr.solvent h₀ hstaff hbefore).spares_step (hr.inv h₀) hs hf
      (ih hbefore)
  | drift hr hc ih => exact ih hf
  | stir hr i ih => exact ih hf

/-- Whatever callers do beside the packages that are loaded and unloaded: along
a fair course no reference that direct callers hold goes uncounted, and nothing
is unloaded that they hold. -/
theorem holders (h₀ : m₀.Starts conduct) (hstaff : m₀.Staffed role)
    (hr : Course conduct m₀ es m) (hf : Fair role es) :
    (∀ h, held role h es ≤ ((Cache.refCount h).run m.cache).1) ∧
      ∀ (later earlier : List Event) (i : Nat) (s : SlotId),
        es = later ++ .did i s .unloaded :: earlier →
        held role s.handle earlier = 0 := by
  constructor
  · intro h
    rw [Cache.run_refCount]
    exact (hr.solvent h₀ hstaff hf).held_le h
  · intro later earlier i s hes
    have hspares := hr.spares h₀ hstaff hf
    rw [hes] at hspares
    have htest := (Bool.and_eq_true_iff.1 (always_of_append hspares)).1
    exact of_decide_eq_true htest

end Machine

/-! ### Packages in threads -/

namespace Package

open Program Cache Machine

/-- Loads the crate, and waits for what comes of it. -/
def loadCrate : Program (Except Failure Unit) :=
  (fun o => o.bind id) <$> schedule crate

/-- Unloads the crate. -/
def unloadCrate : Program (Except Failure Unit) := id <$> unload crate

/-- One who supplies the crate, one who loads it, one who unloads it, and one
who loads what is theirs. -/
def crateThreads (m : Manifest) : Machine (Except Failure Unit) :=
  packageCallers [supply m, loadCrate, unloadCrate, loader]

def crateRole : Nat → Role
  | 1 => .loads crate
  | 2 => .unloads crate 1
  | _ => .direct

theorem starts_crateThreads (m : Manifest) :
    (crateThreads m).Starts packageConduct := by
  apply starts_packageCallers
  intro p hp
  have hcases : p = supply m ∨ p = loadCrate ∨ p = unloadCrate ∨
      p = loader := by simpa using hp
  rcases hcases with rfl | rfl | rfl | rfl
  · exact supply_honest m
  · exact (schedule_honest crate).bind fun _ _ => honest_pure _ _
  · exact (unload_honest crate).bind fun _ _ => honest_pure _ _
  · exact load_honest _ _

theorem staffed_crateThreads (m : Manifest) :
    (crateThreads m).Staffed crateRole := by
  have hloads : ∀ i p, crateRole i = .loads p → i = 1 ∧ p = crate := by
    intro i p hrole
    match i with
    | 0 => cases hrole
    | 1 => cases hrole; exact ⟨rfl, rfl⟩
    | 2 => cases hrole
    | n + 3 => cases hrole
  have hunloads : ∀ i p own, crateRole i = .unloads p own →
      i = 2 ∧ p = crate ∧ own = 1 := by
    intro i p own hrole
    match i with
    | 0 => cases hrole
    | 1 => cases hrole
    | 2 => cases hrole; exact ⟨rfl, rfl, rfl⟩
    | n + 3 => cases hrole
  constructor
  · intro i p hrole
    obtain ⟨rfl, rfl⟩ := hloads i p hrole
    exact ⟨_, rfl⟩
  · intro i p own hrole
    obtain ⟨rfl, rfl, rfl⟩ := hunloads i p own hrole
    exact ⟨_, rfl⟩
  · intro i p own hrole
    obtain ⟨rfl, rfl, rfl⟩ := hunloads i p own hrole
    rfl
  · intro i j p q own hi hj
    rw [(hunloads i p own hi).1, (hunloads j q own hj).1]

/-- The one who supplies the crate holds what is theirs while the crate is
loaded and unloaded, and another one joins in the end. -/
theorem holders_of_crateThreads :
    (crateThreads doubled).Starts packageConduct ∧
      (crateThreads doubled).Staffed crateRole ∧
      ∃ (es : List Event) (m : Machine (Except Failure Unit)),
        Course packageConduct (crateThreads doubled) es m ∧
          Event.Fair crateRole es ∧
          Event.held crateRole theirs es = 2 ∧
          2 ≤ ((Cache.refCount theirs).run m.cache).1 := by
  have hrun := exists_course packageConduct (crateThreads doubled)
    (List.replicate 6 3 ++ List.replicate 12 2 ++ List.replicate 14 1 ++
      List.replicate 20 0)
    (P := fun es _ => Event.always (Event.modest crateRole) es ∧
      Event.always (Event.covered crateRole) es ∧
      Event.always Event.undisturbed es ∧
      Event.held crateRole theirs es = 2)
    (by decide +kernel)
  obtain ⟨es, m, hr, hend⟩ := hrun
  obtain ⟨hmodest, hcovered, hundisturbed, hheld⟩ := of_decide_eq_true hend
  have hf : Event.Fair crateRole es := ⟨hmodest, hcovered, hundisturbed⟩
  have hcounted :=
    (holders (starts_crateThreads doubled) (staffed_crateThreads doubled) hr
      hf).1 theirs
  rw [hheld] at hcounted
  exact ⟨starts_crateThreads doubled, staffed_crateThreads doubled, es, m, hr,
    hf, hheld, hcounted⟩

/-- Lists something that is nowhere to be found, and then what is theirs. -/
def gapped : Manifest := ⟨[⟨theirs.type, [⟨9⟩, theirs.name]⟩]⟩

/-- The load of the crate stops at what is nowhere to be found.  The unload that
comes later drops a reference to what is theirs all the same, and evicts it from
the one who holds it. -/
theorem evicts_what_is_held :
    (crateThreads gapped).Starts packageConduct ∧
      (crateThreads gapped).Staffed crateRole ∧
      ∃ (es es' : List Event) (m m' : Machine (Except Failure Unit))
          (f : Failure),
        Course packageConduct (crateThreads gapped) es m ∧
          m.threads[1]? = some (.finished (.error f)) ∧
          m.threads[2]? = some (.ofProgram unloadCrate) ∧
          m.cache.find? theirs = some ⟨theirs, 0⟩ ∧
          Course packageConduct m es' m' ∧
          Event.always (Event.modest crateRole) (es' ++ es) = true ∧
          Event.held crateRole theirs (es' ++ es) = 1 ∧
          m'.cache.find? theirs = none ∧
          ((Cache.refCount theirs).run m'.cache).1 = 0 := by
  have hf : ∃ es es' m m' f,
      (crateThreads gapped).follow
          (List.replicate 14 1 ++ List.replicate 20 0) = some (es, m) ∧
        m.follow (List.replicate 25 2) = some (es', m') ∧
        m.threads[1]? = some (.finished (.error f)) ∧
        m.threads[2]? = some (.ofProgram unloadCrate) ∧
        m.cache.find? theirs = some ⟨theirs, 0⟩ ∧
        Event.always (Event.modest crateRole) (es' ++ es) = true ∧
        Event.held crateRole theirs (es' ++ es) = 1 ∧
        m'.cache.find? theirs = none ∧
        ((Cache.refCount theirs).run m'.cache).1 = 0 :=
    ⟨_, _, _, _, _, rfl, rfl, rfl, rfl, rfl, rfl, rfl, rfl, rfl⟩
  obtain ⟨es, es', m, m', f, hf, hf', hfailed, hunbegun, hlisted, hrest⟩ := hf
  exact ⟨starts_crateThreads gapped, staffed_crateThreads gapped, es, es', m,
    m', f, course_of_follow hf, hfailed, hunbegun, hlisted,
    course_of_follow hf', hrest⟩

/-- Lists what is theirs. -/
def single : Manifest := ⟨[⟨theirs.type, [theirs.name]⟩]⟩

/-- The load of the crate goes well, and the unload drops the last reference to
what is theirs.  Another one joins before the eviction, which comes all the
same. -/
theorem evicts_what_is_joined :
    ∃ (es : List Event) (m : Machine (Except Failure Unit)),
      Course packageConduct (crateThreads single) es m ∧
        (Event.always (Event.modest crateRole) es ∧
          Event.always (Event.covered crateRole) es ∧
          Event.held crateRole theirs es = 1 ∧
          m.cache.find? theirs = none) := by
  have hrun := exists_course packageConduct (crateThreads single)
    (List.replicate 13 2 ++ List.replicate 6 3 ++ List.replicate 8 2 ++
      List.replicate 15 1 ++ List.replicate 9 0)
    (P := fun es m => Event.always (Event.modest crateRole) es ∧
      Event.always (Event.covered crateRole) es ∧
      Event.held crateRole theirs es = 1 ∧
      m.cache.find? theirs = none)
    (by decide +kernel)
  obtain ⟨es, m, hr, hend⟩ := hrun
  exact ⟨es, m, hr, of_decide_eq_true hend⟩

end Package

end ResourceHost
