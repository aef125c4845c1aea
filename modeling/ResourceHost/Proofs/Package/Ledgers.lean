import ResourceHost.Proofs.Package.Accounts
import ResourceHost.Proofs.Package.Purses
import ResourceHost.Proofs.Threads.Releases

/-!
# Books of those who load and unload packages

Direct callers take references and drop what they took, while others load and
unload packages.  All direct callers keep one account; a load of a package keeps
an account together with the unload that makes up for it.  The books are in
order if what was taken is dropped or still counted, if no account has dropped
more than it took, and if whoever unloads a package has only such references to
drop as its account has, and only such slots to evict as count nothing.  A step
keeps the books in order, as long as the record is fair.
-/

namespace ResourceHost

/-! ### Roles -/

/-- What a thread is there for. -/
inductive Role where
  /-- Takes references and drops them. -/
  | direct
  /-- Loads a package. -/
  | loads (p : NameId)
  /-- Unloads a package, to make up for the load by the thread `own`. -/
  | unloads (p : NameId) (own : Nat)
  deriving DecidableEq

/-- The account of a thread: none of its own for a direct caller. -/
def account (role : Nat → Role) (i : Nat) : Option Nat :=
  match role i with
  | .direct => none
  | .loads _ => some i
  | .unloads _ own => some own

/-- The threads start with what they are there for: those that load or unload a
package do nothing else, and no two unloads make up for one load. -/
structure Machine.Staffed {α : Type} (role : Nat → Role) (m : Machine α) :
    Prop where
  loads : ∀ i p, role i = .loads p →
    ∃ f, m.threads[i]? = some (.ofProgram (f <$> Package.schedule p))
  unloads : ∀ i p own, role i = .unloads p own →
    ∃ f, m.threads[i]? = some (.ofProgram (f <$> Package.unload p))
  loaded : ∀ i p own, role i = .unloads p own → role own = .loads p
  own : ∀ i j p q own, role i = .unloads p own → role j = .unloads q own → i = j

theorem account_of_direct {role : Nat → Role} {i : Nat} (h : role i = .direct) :
    account role i = none := by
  rw [account, h]

theorem account_of_unloads {role : Nat → Role} {i own : Nat} {p : NameId}
    (h : role i = .unloads p own) : account role i = some own := by
  rw [account, h]

/-! ### What a record has to show -/

/-- Whether a request releases a reference to a handle. -/
def Request.releases (h : Handle) : Request → Bool
  | .visit h' .release => h' = h
  | _ => false

namespace Event

/-- Whether every event of a record passes a test, given what was recorded
before it. -/
def always (test : Event → List Event → Bool) : List Event → Bool
  | [] => true
  | e :: es => test e es && always test es

/-- Direct callers drop what they took and no more, and unload nothing. -/
def modest (role : Nat → Role) : Event → List Event → Bool
  | .did i s .released, es =>
    role i ≠ .direct ∨
      droppedBy (account role) none s.handle es <
        takenBy (account role) none s.handle es
  | .did i _ .unloaded, _ => role i ≠ .direct
  | _, _ => true

/-- Whoever unloads a package is told a manifest that lists nothing more often
than the load that is made up for has taken it so far. -/
def covered (role : Nat → Role) : Event → List Event → Bool
  | .answered i r a, es =>
    match role i, r.manifest? a with
    | .unloads p own, some (h, man) =>
      h ≠ Package.handle p || man.handles.all fun h' =>
        man.handles.count h' ≤ takenBy (account role) (some own) h' es
    | _, _ => true
  | _, _ => true

/-- Whether somebody has taken a reference to a handle since a thread was last
answered that it had released one. -/
def retaken (i : Nat) (h : Handle) : List Event → Bool
  | [] => false
  | .did _ s d :: es => decide (s.handle = h ∧ d.Takes) || retaken i h es
  | .befell _ :: es => retaken i h es
  | .answered j r _ :: es => !(j == i && r.releases h) && retaken i h es

/-- Nobody takes a reference between a release and the eviction that the same
thread goes on to. -/
def undisturbed : Event → List Event → Bool
  | .did i s .unloaded, es => !retaken i s.handle es
  | _, _ => true

/-- What a record has to show so that nobody loses a reference. -/
structure Fair (role : Nat → Role) (es : List Event) : Prop where
  modest : always (modest role) es = true
  covered : always (covered role) es = true
  undisturbed : always undisturbed es = true

variable {test : Event → List Event → Bool} {later es : List Event}
  {r : Request} {p : Point r} {c : Cache} {mv : Move r} {i j : Nat} {h : Handle}

theorem always_of_append (ht : always test (later ++ es) = true) :
    always test es = true := by
  induction later with
  | nil => exact ht
  | cons e later ih => exact ih (Bool.and_eq_true_iff.1 ht).2

theorem Fair.of_append {role : Nat → Role} (hf : Fair role (later ++ es)) :
    Fair role es :=
  ⟨always_of_append hf.modest, always_of_append hf.covered,
    always_of_append hf.undisturbed⟩

/-- What is recorded of a deed passes the test. -/
theorem test_of_deed {s : SlotId} {d : Deed}
    (ht : always test (mv.events i p c ++ es) = true)
    (hd : p.deed? c = some (s, d)) :
    test (.did i s d)
      (((mv.happening? p c).map Event.befell).toList ++ es) = true := by
  rw [Move.events, Move.marks, List.append_assoc, List.append_assoc, hd] at ht
  exact (Bool.and_eq_true_iff.1 (always_of_append ht)).1

/-- What is recorded of an answer passes the test. -/
theorem test_of_answer {a : r.Reply}
    (ht : always test (mv.events i p c ++ es) = true)
    (ha : mv.answer? = some a) :
    test (.answered i r a) (mv.marks i p c ++ es) = true := by
  rw [Move.events, List.append_assoc, ha] at ht
  exact (Bool.and_eq_true_iff.1 ht).1

/-- What befalls handles, and what is answered to others or to anything but a
release, does not tell whether somebody has taken a reference. -/
theorem retaken_events
    (hne : ∀ a, mv.answer? = some a → j = i → r.releases h = false) :
    retaken i h (mv.events j p c ++ es) =
      (decide (0 < Deed.gain h (p.deed? c)) || retaken i h es) := by
  have hbefell : retaken i h (((mv.happening? p c).map Event.befell).toList ++
        es) =
      retaken i h es := by
    cases mv.happening? p c <;> rfl
  have hmarks : retaken i h (mv.marks j p c ++ es) =
      (decide (0 < Deed.gain h (p.deed? c)) || retaken i h es) := by
    rw [Move.marks, List.append_assoc]
    cases hd : p.deed? c with
    | none => simpa [Deed.gain] using hbefell
    | some x =>
      obtain ⟨s, d⟩ := x
      show (decide (s.handle = h ∧ d.Takes) ||
        retaken i h (((mv.happening? p c).map Event.befell).toList ++ es)) = _
      rw [hbefell]
      by_cases hx : s.handle = h ∧ d.Takes <;> simp [Deed.gain, hx]
  rw [Move.events, List.append_assoc]
  cases ha : mv.answer? with
  | none => exact hmarks
  | some a =>
    show (!(j == i && r.releases h) && retaken i h (mv.marks j p c ++ es)) = _
    rw [hmarks]
    by_cases hj : j = i
    · rw [hne a ha hj]
      simp
    · simp [hj]

end Event

/-! ### The ledger of who unloads a package -/

namespace Thread

variable {α : Type} {w : Purse} {c : Cache}

/-- What a thread asks is thrifty, now and after. -/
def Thrifty (w : Purse) : Thread α → Prop
  | .finished _ => True
  | .busy r _ next => r.Thrifty w ∧ ∀ a, (next a).Thrifty (w.after r a)

/-- If the thread is at a release, what it has found is what is listed. -/
def Finds (c : Cache) : Thread α → Prop
  | .finished _ => True
  | .busy r p _ => ∀ h, r = .visit h .release → p.Finds c h

theorem thrifty_ofProgram {q : Program α} (hq : q.Thrifty w) :
    (ofProgram q).Thrifty w := by
  cases q with
  | done a => trivial
  | ask r next => exact hq

theorem finds_ofProgram (q : Program α) (c : Cache) :
    (ofProgram q).Finds c := by
  cases q with
  | done a => trivial
  | ask r next => exact fun h hr => trivial

theorem Thrifty.roused {t : Thread α} (ht : t.Thrifty w) (s? : Option SlotId) :
    (t.roused s?).Thrifty w := by
  cases t with
  | finished a => cases s? <;> trivial
  | busy r p next =>
    rcases roused_busy s? p next with heq | ⟨s, errand, rfl, heq⟩ <;>
      rw [heq] <;> exact ht

theorem Finds.roused {t : Thread α} (ht : t.Finds c) (s? : Option SlotId) :
    (t.roused s?).Finds c := by
  cases t with
  | finished a => cases s? <;> trivial
  | busy r p next =>
    rcases roused_busy s? p next with heq | ⟨s, errand, rfl, heq⟩ <;>
      rw [heq] <;> exact ht

/-- A thread that is thrifty goes on so, with what is in the purse after an
answer. -/
theorem Thrifty.moved {r : Request} {p : Point r} {next : r.Reply → Program α}
    (ht : (Thread.busy r p next).Thrifty w) (mv : Move r) :
    (mv.thread p next).Thrifty (mv.answer?.elim w (w.after r)) := by
  cases mv with
  | blocked => exact ht
  | go q c => exact ht
  | reply a s? c => exact thrifty_ofProgram (ht.2 a)

/-- What a thread has found stays listed, if what is still due does. -/
theorem Finds.congr {t : Thread α} {c' : Cache} (hf : t.Finds c)
    (ht : t.Thrifty w)
    (hc : ∀ h ∈ w.due, ∀ s, c.find? h = some s → c'.find? h = some s) :
    t.Finds c' := by
  cases t with
  | finished a => trivial
  | busy r p next =>
    intro h hr
    have hdue : h ∈ w.due := by
      have hthrifty := ht.1
      rw [hr] at hthrifty
      exact hthrifty
    exact (hf h hr).congr (hc h hdue)

end Thread

namespace Machine

open Event

variable {α : Type} {role : Nat → Role} {es : List Event} {m m₀ m' : Machine α}
  {conduct : Conduct}

/-- The books of a thread that unloads a package, with what is in its purse:
what is due was taken on its account and not dropped; before the manifest is
known nothing was dropped; and what is spent counts nothing, unless somebody has
taken a reference since. -/
structure Ledger (role : Nat → Role) (i : Nat) (p : NameId) (own : Nat)
    (es : List Event) (c : Cache) (t : Thread α) (w : Purse) : Prop where
  thrifty : t.Thrifty w
  finds : t.Finds c
  due : ∀ h, droppedBy (account role) (some own) h es + w.due.count h ≤
    takenBy (account role) (some own) h es
  awaited : ∀ h, w.awaited? = some h → h = Package.handle p ∧
    ∀ h', droppedBy (account role) (some own) h' es = 0
  spent : ∀ h ∈ w.spent, h ∉ w.due ∧ (c.refs h = 0 ∨ retaken i h es = true)

/-- The books are in order. -/
structure Solvent (role : Nat → Role) (es : List Event) (m : Machine α) :
    Prop where
  backed : ∀ h, (takers (account role) h es).length ≤
    (droppers (account role) h es).length + m.cache.refs h
  balanced : ∀ a h,
    droppedBy (account role) a h es ≤ takenBy (account role) a h es
  loads : ∀ i p, role i = .loads p →
    ∃ t, m.threads[i]? = some t ∧ t.Thrifty .empty
  unloads : ∀ i p own, role i = .unloads p own →
    ∃ t w, m.threads[i]? = some t ∧ Ledger role i p own es m.cache t w

/-- What an account has not dropped is still counted. -/
theorem Solvent.taken_le (hs : m.Solvent role es) (a : Option Nat)
    (h : Handle) :
    takenBy (account role) a h es ≤
      droppedBy (account role) a h es + m.cache.refs h :=
  count_le_of_length_le (fun b => hs.balanced b h) (hs.backed h) a

/-- What is due is counted. -/
theorem Solvent.refs_of_due (hs : m.Solvent role es) {i own : Nat} {p : NameId}
    {t : Thread α} {w : Purse} (hl : Ledger role i p own es m.cache t w)
    {h : Handle} (hh : h ∈ w.due) : 0 < m.cache.refs h := by
  have hdue := hl.due h
  have htaken := hs.taken_le (some own) h
  have hcount := List.count_pos_iff.2 hh
  omega

theorem Staffed.solvent (hs : m₀.Staffed role) : m₀.Solvent role [] := by
  constructor
  · intro h
    exact Nat.zero_le _
  · intro a h
    exact Nat.le_refl _
  · intro i p hrole
    obtain ⟨f, hi⟩ := hs.loads i p hrole
    exact ⟨_, hi, Thread.thrifty_ofProgram ((Package.schedule_thrifty p).map f)⟩
  · intro i p own hrole
    obtain ⟨f, hi⟩ := hs.unloads i p own hrole
    refine ⟨_, .awaiting (Package.handle p), hi, ?_, Thread.finds_ofProgram _ _,
      ?_, ?_, ?_⟩
    · exact Thread.thrifty_ofProgram ((Package.unload_thrifty p).map f)
    · intro h
      exact Nat.le_refl _
    · intro h hh
      exact ⟨(Option.some.inj hh).symm, fun h' => rfl⟩
    · intro h hh
      exact absurd hh List.not_mem_nil

theorem Solvent.drift (hs : m.Solvent role es) {c : Cache}
    (hc : m.cache.Drifts conduct c) :
    Solvent role es { m with cache := c } := by
  have hrefs : ∀ h, c.refs h = m.cache.refs h :=
    Cache.refs_of_shelves hc.shelves
  refine ⟨?_, hs.balanced, hs.loads, ?_⟩
  · intro h
    show _ ≤ _ + c.refs h
    rw [hrefs]
    exact hs.backed h
  · intro i p own hrole
    obtain ⟨t, w, hi, hl⟩ := hs.unloads i p own hrole
    refine ⟨t, w, hi, hl.thrifty, ?_, hl.due, hl.awaited, ?_⟩
    · apply hl.finds.congr hl.thrifty
      intro h _ s hfound
      exact (Cache.find?_of_shelves hc.shelves h).trans hfound
    · intro h hh
      rw [hrefs]
      exact hl.spent h hh

theorem Solvent.stir (hs : m.Solvent role es) (i : Nat) :
    (m.stir i).Solvent role es := by
  refine ⟨hs.backed, hs.balanced, ?_, ?_⟩
  · intro j p hrole
    obtain ⟨t, ht, hthrifty⟩ := hs.loads j p hrole
    obtain ⟨w, hw⟩ := getElem?_stir (i := i) ht
    exact ⟨_, hw, hthrifty.roused w⟩
  · intro j p own hrole
    obtain ⟨t, purse, ht, hl⟩ := hs.unloads j p own hrole
    obtain ⟨w, hw⟩ := getElem?_stir (i := i) ht
    exact ⟨_, purse, hw, hl.thrifty.roused w, hl.finds.roused w, hl.due,
      hl.awaited, hl.spent⟩

/-! ### A step -/

/-- Once the manifest is told, what it lists is due. -/
theorem Ledger.told {i own : Nat} {q : NameId} {t t' : Thread α} {c : Cache}
    {r : Request} {p : Point r} {mv : Move r} {a : r.Reply} {h : Handle}
    {man : Package.Manifest} (hl : Ledger role i q own es c t (.awaiting h))
    (hf : Fair role (mv.events i p c ++ es)) (hrole : role i = .unloads q own)
    (ha : mv.answer? = some a) (hman : r.manifest? a = some (h, man))
    (hloss : ∀ h, Deed.loss h (p.deed? c) = 0)
    (ht : t'.Thrifty (.opened man.handles []))
    (hfinds : t'.Finds (mv.cacheAfter c)) :
    Ledger role i q own (mv.events i p c ++ es) (mv.cacheAfter c) t'
      (.opened man.handles []) := by
  obtain ⟨rfl, hnothing⟩ := hl.awaited h rfl
  have hcovered := test_of_answer hf.covered ha
  rw [covered, hrole, hman] at hcovered
  have hlisted : ∀ x ∈ man.handles, man.handles.count x ≤
      takenBy (account role) (some own) x (mv.marks i p c ++ es) := by
    simpa using hcovered
  refine ⟨ht, hfinds, ?_, nofun, nofun⟩
  intro x
  rw [droppedBy_events, hloss, hnothing]
  by_cases hx : x ∈ man.handles
  · have hmarks : takenBy (account role) (some own) x (mv.events i p c ++ es) =
        takenBy (account role) (some own) x (mv.marks i p c ++ es) := by
      rw [Move.events, List.append_assoc, ha]
      rfl
    rw [hmarks]
    simpa [Purse.due] using hlisted x hx
  · have hzero : (Purse.opened man.handles []).due.count x = 0 :=
      List.count_eq_zero_of_not_mem hx
    rw [hzero]
    simp

/-- What a release drops is not due any more. -/
theorem Ledger.due_released {i own : Nat} {q : NameId} {t : Thread α}
    {w : Purse} {c : Cache} {r : Request} {p : Point r} {s : SlotId}
    (hl : Ledger role i q own es c t w) (hrole : role i = .unloads q own)
    (hmem : s.handle ∈ w.due) (hd : p.deed? c = some (s, .released))
    (mv : Move r) (h : Handle) :
    droppedBy (account role) (some own) h (mv.events i p c ++ es) +
        (w.due.erase s.handle).count h ≤
      takenBy (account role) (some own) h (mv.events i p c ++ es) := by
  have hbefore := hl.due h
  have hcount : 0 < w.due.count s.handle := List.count_pos_iff.2 hmem
  rw [droppedBy_events, takenBy_events, if_pos (account_of_unloads hrole), hd,
    List.count_erase]
  by_cases hh : s.handle = h
  · subst hh
    simp only [Deed.loss, and_self, if_true, beq_self_eq_true]
    omega
  · simp only [Deed.loss, hh, false_and, if_false]
    omega

section

variable {i : Nat} {r : Request} {p : Point r} {next : r.Reply → Program α}
  {mv : Move r} {s : SlotId} (hinv : m.Inv conduct)
  (hi : m.threads[i]? = some (.busy r p next)) (hmv : Moves m.free m.cache p mv)

include hinv hi hmv

/-- What is spent stays so, unless somebody takes a reference. -/
theorem Inv.spent_step {h : Handle} {j : Nat}
    (hne : ∀ a, mv.answer? = some a → i = j → r.releases h = false)
    (hspent : m.cache.refs h = 0 ∨ retaken j h es = true) :
    (mv.cacheAfter m.cache).refs h = 0 ∨
      retaken j h (mv.events i p m.cache ++ es) = true := by
  rw [retaken_events hne]
  have hbound := (hmv.effect.recount (hinv.sound i _ hi).1 h).bounded
  rcases hspent with hzero | hagain
  · by_cases hgain : 0 < Deed.gain h (p.deed? m.cache)
    · simp [hgain]
    · exact .inl (by omega)
  · simp [hagain]

/-- The ledger of a thread stays as it is while nothing is dropped on its
account. -/
theorem Ledger.kept {j own : Nat} {q : NameId} {t t' : Thread α} {w : Purse}
    (hl : Ledger role j q own es m.cache t w) (ht : t'.Thrifty w)
    (hfinds : t'.Finds (mv.cacheAfter m.cache))
    (hloss : account role i = some own → ∀ h, Deed.loss h (p.deed? m.cache) = 0)
    (hne : ∀ h a, mv.answer? = some a → i = j → r.releases h = false) :
    Ledger role j q own (mv.events i p m.cache ++ es) (mv.cacheAfter m.cache)
      t' w := by
  have hsame : ∀ h,
      droppedBy (account role) (some own) h (mv.events i p m.cache ++ es) =
        droppedBy (account role) (some own) h es := by
    intro h
    rw [droppedBy_events]
    by_cases ha : account role i = some own
    · rw [if_pos ha, hloss ha h, Nat.add_zero]
    · rw [if_neg ha, Nat.add_zero]
  refine ⟨ht, hfinds, ?_, ?_, ?_⟩
  · intro h
    have hdue := hl.due h
    rw [hsame, takenBy_events]
    omega
  · intro h hh
    refine ⟨(hl.awaited h hh).1, ?_⟩
    intro h'
    rw [hsame]
    exact (hl.awaited h hh).2 h'
  · intro h hh
    obtain ⟨hnot, hspent⟩ := hl.spent h hh
    exact ⟨hnot, hinv.spent_step hi hmv (hne h) hspent⟩

/-- The ledger of one who is at anything but a release. -/
theorem Ledger.step (hf : Fair role (mv.events i p m.cache ++ es))
    {own : Nat} {q : NameId} {w : Purse} (hrole : role i = .unloads q own)
    (hr : ∀ h, r ≠ .visit h .release)
    (hl : Ledger role i q own es m.cache (.busy r p next) w) :
    ∃ w', Ledger role i q own (mv.events i p m.cache ++ es)
        (mv.cacheAfter m.cache)
      (mv.thread p next) w' := by
  have hloss : ∀ h, Deed.loss h (p.deed? m.cache) = 0 := by
    intro h
    rcases Deed.loss_cases h (p.deed? m.cache) with hloss | ⟨s, hd, -, -⟩
    · exact hloss
    · exact absurd (hmv.effect.eq_release (hinv.sound i _ hi).1 hd) (hr _)
  have hfinds : (mv.thread p next).Finds (mv.cacheAfter m.cache) := by
    cases mv with
    | blocked => exact fun h hh => absurd hh (hr h)
    | go q' c => exact fun h hh => absurd hh (hr h)
    | reply a s? c => exact Thread.finds_ofProgram _ _
  have hreleases : ∀ h, r.releases h = false := by
    intro h
    unfold Request.releases
    split
    · exact absurd rfl (hr _)
    · rfl
  have hthrifty := hl.thrifty.moved mv
  cases ha : mv.answer? with
  | none =>
    rw [ha] at hthrifty
    exact ⟨w,
      hl.kept hinv hi hmv hthrifty hfinds (fun _ => hloss)
        fun h _ _ _ => hreleases h⟩
  | some a =>
    rw [ha] at hthrifty
    rcases w.after_cases hr a with heq | ⟨h, man, rfl, hman, heq⟩
    · rw [Option.elim_some, heq] at hthrifty
      exact ⟨w,
        hl.kept hinv hi hmv hthrifty hfinds (fun _ => hloss)
          fun h _ _ _ => hreleases h⟩
    · rw [Option.elim_some, heq] at hthrifty
      exact ⟨_, hl.told hf hrole ha hman hloss hthrifty hfinds⟩

variable (hs : m.Solvent role es)

include hs

/-- Whoever loads a package drops nothing. -/
theorem Solvent.not_loads_of_released
    (hd : p.deed? m.cache = some (s, .released)) (q : NameId) :
    role i ≠ .loads q := by
  intro hrole
  obtain rfl := hmv.effect.eq_release (hinv.sound i _ hi).1 hd
  obtain ⟨t, ht, hthrifty⟩ := hs.loads i q hrole
  cases hi.symm.trans ht
  exact absurd hthrifty.1 List.not_mem_nil

variable (hf : Fair role (mv.events i p m.cache ++ es))

include hf

/-- What is unloaded counts nothing. -/
theorem Solvent.refs_of_unloaded (hd : p.deed? m.cache = some (s, .unloaded)) :
    m.cache.refs s.handle = 0 := by
  obtain rfl := hmv.effect.eq_unload (hinv.sound i _ hi).1 hd
  cases hrole : role i with
  | direct =>
    have hmodest := test_of_deed hf.modest hd
    exact absurd hrole (of_decide_eq_true hmodest)
  | loads q =>
    obtain ⟨t, ht, hthrifty⟩ := hs.loads i q hrole
    cases hi.symm.trans ht
    exact absurd hthrifty.1 List.not_mem_nil
  | unloads q own =>
    obtain ⟨t, w, ht, hl⟩ := hs.unloads i q own hrole
    cases hi.symm.trans ht
    refine (hl.spent s.handle hl.thrifty.1).2.resolve_right fun hagain => ?_
    have hquiet := test_of_deed hf.undisturbed hd
    have hsame : retaken i s.handle
        (((mv.happening? p m.cache).map Event.befell).toList ++ es) = true := by
      rw [← hagain]
      cases mv.happening? p m.cache <;> rfl
    rw [undisturbed, hsame] at hquiet
    cases hquiet

/-- Whoever drops a reference has one on its account. -/
theorem Solvent.dropped_lt (hd : p.deed? m.cache = some (s, .released)) :
    droppedBy (account role) (account role i) s.handle es <
      takenBy (account role) (account role i) s.handle es := by
  obtain rfl := hmv.effect.eq_release (hinv.sound i _ hi).1 hd
  cases hrole : role i with
  | direct =>
    have hmodest := of_decide_eq_true (test_of_deed hf.modest hd)
    have hless := hmodest.resolve_left fun hne => hne hrole
    rw [account_of_direct hrole]
    cases hx : mv.happening? p m.cache <;> rw [hx] at hless <;> exact hless
  | loads q => exact absurd hrole (hs.not_loads_of_released hinv hi hmv hd q)
  | unloads q own =>
    obtain ⟨t, w, ht, hl⟩ := hs.unloads i q own hrole
    cases hi.symm.trans ht
    have hdue := hl.due s.handle
    have hcount : 0 < w.due.count s.handle := List.count_pos_iff.2 hl.thrifty.1
    rw [account_of_unloads hrole]
    omega

/-- No account drops more than it took. -/
theorem Solvent.balanced_step (a : Option Nat) (h : Handle) :
    droppedBy (account role) a h (mv.events i p m.cache ++ es) ≤
      takenBy (account role) a h (mv.events i p m.cache ++ es) := by
  have hbefore := hs.balanced a h
  rw [droppedBy_events, takenBy_events]
  by_cases ha : account role i = a
  · rw [if_pos ha, if_pos ha]
    rcases Deed.loss_cases h (p.deed? m.cache) with hloss | ⟨s, hd, rfl, hloss⟩
    · omega
    · have hless := hs.dropped_lt hinv hi hmv hf hd
      rw [ha] at hless
      omega
  · rw [if_neg ha, if_neg ha]
    exact hbefore

/-- What is taken is counted until it is dropped. -/
theorem Solvent.backed_step (h : Handle) :
    (takers (account role) h (mv.events i p m.cache ++ es)).length ≤
      (droppers (account role) h (mv.events i p m.cache ++ es)).length +
        (mv.cacheAfter m.cache).refs h := by
  have hbefore := hs.backed h
  have hrecount :=
    (hmv.effect.recount (hinv.sound i _ hi).1 h).backed fun s hd hsh => by
    rw [← hsh]
    exact hs.refs_of_unloaded hinv hi hmv hf hd
  rw [takers, doers_append, List.length_append, ← takers, takers_events,
    List.length_replicate, droppers, doers_append, List.length_append,
    ← droppers, droppers_events,
    List.length_replicate, ← takers, ← droppers]
  omega

/-- What counts something stays listed. -/
theorem Solvent.find?_step {h : Handle} (hn : 0 < m.cache.refs h)
    (hfound : m.cache.find? h = some s) :
    (mv.cacheAfter m.cache).find? h = some s := by
  refine hmv.effect.find?_of_refs (hinv.sound i _ hi).1 hfound hn
    fun s' hd hsh => ?_
  have hzero := hs.refs_of_unloaded hinv hi hmv hf hd
  rw [hsh] at hzero
  omega

/-- The ledger of one who stands by while another thread moves. -/
theorem Ledger.other_step (hstaff : m₀.Staffed role) {j own : Nat} {q : NameId}
    {t : Thread α} {w : Purse} (hij : j ≠ i) (hrole : role j = .unloads q own)
    (hl : Ledger role j q own es m.cache t w) :
    Ledger role j q own (mv.events i p m.cache ++ es) (mv.cacheAfter m.cache)
      (t.roused mv.woken?) w := by
  have hfinds : (t.roused mv.woken?).Finds (mv.cacheAfter m.cache) := by
    apply (hl.finds.roused _).congr (hl.thrifty.roused _)
    intro h hh s hfound
    exact hs.find?_step hinv hi hmv hf (hs.refs_of_due hl hh) hfound
  refine hl.kept hinv hi hmv (hl.thrifty.roused _) hfinds ?_ ?_
  · intro ha h
    rcases Deed.loss_cases h (p.deed? m.cache) with hloss | ⟨s, hd, -, -⟩
    · exact hloss
    · -- Of those on this account one only loads, and the other one stands by.
      cases hmine : role i with
      | direct =>
        rw [account_of_direct hmine] at ha
        cases ha
      | loads q' =>
        exact absurd hmine (hs.not_loads_of_released hinv hi hmv hd q')
      | unloads q' own' =>
        rw [account_of_unloads hmine] at ha
        cases ha
        exact absurd (hstaff.own _ _ _ _ _ hrole hmine) hij
  · intro h a ha heq
    exact absurd heq.symm hij

end

/-- The ledger of one who is at a release. -/
theorem Ledger.release_step {i : Nat} {h : Handle}
    {p : Point (.visit h .release)} {next : Except Failure Nat → Program α}
    {mv : Move (.visit h .release)} (hs : m.Solvent role es)
    (hinv : m.Inv conduct)
    (hi : m.threads[i]? = some (.busy (.visit h .release) p next))
    (hmv : Moves m.free m.cache p mv)
    (hf : Fair role (mv.events i p m.cache ++ es)) {own : Nat} {q : NameId}
    {w : Purse} (hrole : role i = .unloads q own)
    (hl : Ledger role i q own es m.cache (.busy (.visit h .release) p next) w) :
    ∃ w', Ledger role i q own (mv.events i p m.cache ++ es)
        (mv.cacheAfter m.cache)
      (mv.thread p next) w' := by
  have hmem : h ∈ w.due := hl.thrifty.1
  have hthrifty := hl.thrifty.moved mv
  -- What the account has in the end, by what is still counted then.
  have hbalanced := hs.balanced_step hinv hi hmv hf
  have htaken := count_le_of_length_le (fun b => hbalanced b h)
    (hs.backed_step hinv hi hmv hf h) (some own)
  rcases hmv.finds (hinv.sound i _ hi).1 (hl.finds h rfl) with
    ⟨q', rfl, hfinds, hd⟩ | ⟨hnone, -, -⟩ |
    ⟨s, n, c', heq, hfound, hfound', hn, hd⟩
  · refine ⟨w, hl.kept hinv hi hmv hthrifty ?_ ?_ nofun⟩
    · intro h' hr
      cases hr
      exact hfinds
    · intro _ h'
      rw [hd]
      rfl
  · have hpos := hs.refs_of_due hl hmem
    rw [Cache.refs_of_none hnone] at hpos
    exact absurd hpos (Nat.lt_irrefl 0)
  · obtain ⟨rfl, -⟩ := Cache.find?_eq_some_iff.1 hfound
    have hcache : mv.cacheAfter m.cache = c' := by
      rw [heq]
      rfl
    have hanswer : mv.answer? = some (.ok n : Except Failure Nat) := by
      rw [heq]
      rfl
    have hfinds : (mv.thread p next).Finds (mv.cacheAfter m.cache) := by
      rw [heq]
      exact Thread.finds_ofProgram _ _
    have hdue := hl.due_released hrole hmem hd mv
    rw [hanswer, Option.elim_some] at hthrifty
    refine ⟨_, hthrifty, hfinds, ?_, ?_, ?_⟩
    · intro h'
      rw [Purse.due_after_release]
      exact hdue h'
    · intro h' hh
      rw [Purse.awaited?_after_release] at hh
      cases hh
    · intro h' hh
      rw [Purse.due_after_release]
      rcases Purse.spent_after_release hh with hold | ⟨rfl, hzero⟩
      · obtain ⟨hnot, hspent⟩ := hl.spent h' hold
        refine ⟨fun hin => hnot (List.mem_of_mem_erase hin), ?_⟩
        apply hinv.spent_step hi hmv _ hspent
        intro _ _ _
        apply decide_eq_false
        rintro rfl
        exact hnot hmem
      · -- Nothing is counted any more, so nothing more of it is due.
        have hrefs : (mv.cacheAfter m.cache).refs s.handle = 0 := by
          rw [hcache, Cache.refs_of_find? hfound', hn, hzero]
        refine ⟨fun hin => ?_, .inl hrefs⟩
        have hpos := List.count_pos_iff.2 hin
        have hmine := hdue s.handle
        rw [takenBy, droppedBy] at hmine
        omega

/-- A step keeps the books in order. -/
theorem Solvent.step {i : Nat} (hs : m.Solvent role es)
    (hstaff : m₀.Staffed role) (hinv : m.Inv conduct)
    (hstep : m.step i = some m') (hf : Fair role (m.events i ++ es)) :
    m'.Solvent role (m.events i ++ es) := by
  obtain ⟨r, p, next, mv, hi, hmv, hev, rfl⟩ := step_cases hstep
  rw [hev] at hf ⊢
  refine ⟨hs.backed_step hinv hi hmv hf, hs.balanced_step hinv hi hmv hf, ?_,
    ?_⟩
  · intro j q hrole
    obtain ⟨t, ht, hthrifty⟩ := hs.loads j q hrole
    by_cases hij : j = i
    · subst hij
      cases hi.symm.trans ht
      refine ⟨_, getElem?_set_wake_self hi, ?_⟩
      have hmoved := hthrifty.moved mv
      cases ha : mv.answer? with
      | none =>
        rw [ha] at hmoved
        exact hmoved
      | some a =>
        rw [ha, Option.elim_some, Purse.after_empty hthrifty.1] at hmoved
        exact hmoved
    · exact ⟨_, getElem?_set_wake_of_ne hij ht, hthrifty.roused _⟩
  · intro j q own hrole
    obtain ⟨t, w, ht, hl⟩ := hs.unloads j q own hrole
    by_cases hij : j = i
    · subst hij
      cases hi.symm.trans ht
      by_cases hr : ∃ h, r = .visit h .release
      · obtain ⟨h, rfl⟩ := hr
        obtain ⟨w', hl'⟩ := hl.release_step hs hinv hi hmv hf hrole
        exact ⟨_, w', getElem?_set_wake_self hi, hl'⟩
      · obtain ⟨w', hl'⟩ :=
          hl.step hinv hi hmv hf hrole fun h heq => hr ⟨h, heq⟩
        exact ⟨_, w', getElem?_set_wake_self hi, hl'⟩
    · exact ⟨_, w, getElem?_set_wake_of_ne hij ht,
        hl.other_step hinv hi hmv hs hf hstaff hij hrole⟩

end Machine

end ResourceHost
