import ResourceHost.Proofs.Threads.References

/-!
# Who took references, and who dropped them

References carry no name: the cache counts them, and only the record tells who
took one and who dropped one.  The threads keep accounts, each of its own or
several of one together.  While only such slots are unloaded as count nothing,
all that was taken is dropped or still counted; so if no account has dropped
more than it took, what an account has not dropped is still counted.
-/

namespace ResourceHost

/-! ### The references that are counted -/

namespace Cache

variable {c c' : Cache} {h : Handle} {s : SlotId}

/-- The references to what the table lists for a handle. -/
def refs (c : Cache) (h : Handle) : Nat :=
  (c.find? h).elim 0 fun s => (c.entry s).refCount

theorem refs_of_find? (hs : c.find? h = some s) :
    c.refs h = (c.entry s).refCount := by
  rw [refs, hs]
  rfl

theorem refs_of_none (hf : c.find? h = none) : c.refs h = 0 := by
  rw [refs, hf]
  rfl

/-- A caller who runs alone is told the references. -/
theorem run_refCount (c : Cache) (h : Handle) :
    ((refCount h).run c).1 = c.refs h := by
  show (c.visit h .refCount).1 = c.refs h
  rw [visit]
  cases hf : c.find? h with
  | none => exact (refs_of_none hf).symm
  | some s => exact (refs_of_find? hf).symm

theorem refs_congr (hf : c'.find? h = c.find? h)
    (he : ∀ s, c.find? h = some s →
      (c'.entry s).refCount = (c.entry s).refCount) :
    c'.refs h = c.refs h := by
  cases hs : c.find? h with
  | none => rw [refs_of_none hs, refs_of_none (hf.trans hs)]
  | some s => rw [refs_of_find? hs, refs_of_find? (hf.trans hs), he s hs]

theorem find?_of_shelves (hc : c'.shelves = c.shelves) (h : Handle) :
    c'.find? h = c.find? h := by
  rw [find?, find?, shelf_eq_of_shelves hc]

theorem refs_of_shelves (hc : c'.shelves = c.shelves) (h : Handle) :
    c'.refs h = c.refs h :=
  refs_congr (find?_of_shelves hc h) fun s _ =>
    congrArg Entry.refCount (Keeps.of_shelves hc s).entry

end Cache

/-! ### What a deed is done for -/

/-- Only an unload evicts what is loaded. -/
theorem Visit.unload_of_evicts {h : Handle} {kind? : Option Kind} {e : Entry}
    {v : Visit} (hev : (v.inside h kind? e).evicts = true) : v = .unload := by
  cases v with
  | unload => rfl
  | offline =>
    simp only [inside, Entry.takeOffline] at hev
    split at hev
    · split at hev <;> cases hev
    all_goals cases hev
  | online =>
    simp only [inside, Entry.bringOnline] at hev
    split at hev
    · cases hev
    · split at hev <;> cases hev
    · cases hev
  | reload bytes =>
    simp only [inside, Entry.reload] at hev
    split at hev
    · cases hev
    · split at hev
      · simp only [Entry.replace] at hev
        split at hev <;> cases hev
      · simp only [Entry.replace] at hev
        split at hev <;> cases hev
      · cases hev
  | _ => cases hev

namespace Errand

variable {r : Request} {errand : Errand r} {s : SlotId} {e : Entry}
  {sec : Section r.Reply}

/-- Only who made a slot fills it or gives it up. -/
theorem owns_of_deed? {d : Deed}
    (hd : errand.deed? sec.answer sec.evicts = some d)
    (hset : d = .settled ∨ d = .failed) : errand.owns = true := by
  cases errand with
  | settle outcome => rfl
  | introduce => rfl
  | join =>
    cases ha : sec.answer <;> rw [ha] at hd <;> cases hd
    rcases hset with h | h <;> cases h
  | @visit _ v _ =>
    rcases Visit.deed?_cases (v := v) hd with rfl | rfl <;>
      rcases hset with h | h <;> cases h
  | look => cases hd

/-- Only a release drops a reference. -/
theorem release_of_deed?
    (hd : errand.deed? sec.answer sec.evicts = some .released) :
    ∃ h, r = .visit h .release := by
  cases errand with
  | settle outcome => cases outcome <;> cases hd
  | introduce => cases hd
  | join => cases ha : sec.answer <;> rw [ha] at hd <;> cases hd
  | @visit h v _ =>
    cases v with
    | release => exact ⟨h, rfl⟩
    | _ => cases hev : sec.evicts <;> rw [hev] at hd <;> cases hd
  | look => cases hd

/-- Only an unload unloads. -/
theorem unload_of_deed? (hs : errand.section? s e = some sec)
    (hd : errand.deed? sec.answer sec.evicts = some .unloaded) :
    ∃ h, r = .visit h .unload := by
  cases errand with
  | settle outcome => cases outcome <;> cases hd
  | introduce => cases hd
  | join => cases ha : sec.answer <;> rw [ha] at hd <;> cases hd
  | @visit h v kind? =>
    cases hs
    have hev : (v.inside h kind? e).evicts = true := by
      cases hev : (v.inside h kind? e).evicts with
      | true => rfl
      | false =>
        rw [hev] at hd
        cases v <;> cases hd
    rw [Visit.unload_of_evicts hev]
    exact ⟨h, rfl⟩
  | look => cases hd

end Errand

/-! ### What a deed makes of the references to a handle -/

/-- One, if the deed takes a reference to a slot of the handle. -/
def Deed.gain (h : Handle) : Option (SlotId × Deed) → Nat
  | some (s, d) => if s.handle = h ∧ d.Takes then 1 else 0
  | none => 0

/-- One, if the deed drops a reference to a slot of the handle. -/
def Deed.loss (h : Handle) : Option (SlotId × Deed) → Nat
  | some (s, d) => if s.handle = h ∧ d = .released then 1 else 0
  | none => 0

/-- What becomes of the references to a handle by a move with its deed. -/
inductive Recount (n n' : Nat) (h : Handle) (d : Option (SlotId × Deed)) :
    Prop where
  /-- They stay, though a slot that is not listed any more may have been
  released. -/
  | same (heq : n' = n) (hg : Deed.gain h d = 0)
  | more (heq : n' = n + 1) (hg : Deed.gain h d = 1)
  | less (heq : n' = n - 1) (hg : Deed.gain h d = 0) (hl : Deed.loss h d = 1)
  /-- There are none any more. -/
  | gone (heq : n' = 0) (hg : Deed.gain h d = 0)
      (hd : n = 0 ∨ ∃ s, d = some (s, .unloaded) ∧ s.handle = h)

section

variable {n n' : Nat} {h : Handle} {d : Option (SlotId × Deed)}

/-- What is taken is counted, unless a slot is unloaded that counts
something. -/
theorem Recount.backed (hr : Recount n n' h d)
    (hd : ∀ s, d = some (s, .unloaded) → s.handle = h → n = 0) :
    n + Deed.gain h d ≤ n' + Deed.loss h d := by
  cases hr with
  | same heq hg => omega
  | more heq hg => omega
  | less heq hg hl => omega
  | gone heq hg hgone =>
    rcases hgone with hz | ⟨s, rfl, hs⟩
    · omega
    · have hz := hd s rfl hs
      omega

/-- Nothing is counted that nobody takes. -/
theorem Recount.bounded (hr : Recount n n' h d) : n' ≤ n + Deed.gain h d := by
  cases hr with
  | same heq hg => omega
  | more heq hg => omega
  | less heq hg hl => omega
  | gone heq hg hgone => omega

theorem Deed.loss_cases (h : Handle) (d : Option (SlotId × Deed)) :
    Deed.loss h d = 0 ∨
      ∃ s, d = some (s, .released) ∧ s.handle = h ∧ Deed.loss h d = 1 := by
  cases d with
  | none => exact .inl rfl
  | some x =>
    obtain ⟨s, d⟩ := x
    by_cases hx : s.handle = h ∧ d = .released
    · obtain ⟨rfl, rfl⟩ := hx
      exact .inr ⟨s, rfl, rfl, if_pos ⟨rfl, rfl⟩⟩
    · exact .inl (if_neg hx)

theorem Deed.gain_of_ne {s : SlotId} (hs : s.handle ≠ h) (d : Option Deed) :
    Deed.gain h (d.map fun d => (s, d)) = 0 := by
  cases d with
  | none => rfl
  | some d => exact if_neg fun hsd => hs hsd.1

end

variable {conduct : Conduct} {c : Cache} {r : Request} {p : Point r}
  {mv : Move r} {d : Option (SlotId × Deed)}

/-- Who takes a reference takes it to what is listed. -/
theorem Hold.Since.listed_of_takes {hold : Hold r} {found : Entry}
    (hs : hold.Since conduct c found []) {d : Deed} (hd : hold.deed? = some d)
    (ht : d.Takes) : c.Listed hold.slot := by
  rcases hs.idle_or_tidy with ⟨ho, hb, -⟩ | ⟨hl, -⟩
  · rw [Errand.deed?_of_blank ho hb hs.does d hd] at ht
    exact absurd ht (by decide)
  · exact hl

/-- Who lets a listed slot go without evicting it has taken a reference, dropped
one, or done neither. -/
theorem Hold.Since.recount_leave {hold : Hold r} {found : Entry}
    (hs : hold.Since conduct c found []) (hev : hold.sec.evicts = false) :
    Recount (c.entry hold.slot).refCount hold.sec.entry.refCount
      hold.slot.handle
      (hold.deed?.map fun d => (hold.slot, d)) := by
  have hcount := hs.refCount_after
  have hnot := mt (Errand.evicts_iff_deed? hs.does).2 (ne_true_of_eq_false hev)
  have hmade := hold.errand.deed?_ne_opened hold.sec.answer hold.sec.evicts
  rw [← Hold.deed?] at hnot hmade
  cases hd : hold.deed? with
  | none =>
    rw [hd] at hcount
    exact .same hcount rfl
  | some d =>
    rw [hd] at hcount hnot hmade
    cases d with
    | opened => exact absurd rfl hmade.1
    | inserted => exact absurd rfl hmade.2
    | failed => exact absurd (.inl rfl) hnot
    | unloaded => exact absurd (.inr rfl) hnot
    | joined => exact .more hcount (if_pos ⟨rfl, .inr rfl⟩)
    | released =>
      exact .less hcount (if_neg fun ht => absurd ht.2 (by decide))
        (if_pos ⟨rfl, rfl⟩)
    | settled =>
      -- Who fills a slot has found it as it was made.
      have hfresh : (c.entry hold.slot).refCount = 0 := by
        rw [hs.refCount, hs.owns (Errand.owns_of_deed? hd (.inl rfl))]
        rfl
      refine .more ?_ (if_pos ⟨rfl, .inl rfl⟩)
      rw [hfresh]
      exact hcount

/-- What every move makes of the references to every handle. -/
theorem Effect.recount (he : Effect c p mv d) (hp : p.Sound conduct c)
    (h : Handle) : Recount (c.refs h) ((mv.cacheAfter c).refs h) h d := by
  have hcount := he.refCount hp
  cases he with
  | still hc => exact .same (Cache.refs_of_shelves hc h) rfl
  | @opens h' q d hr hf hq hl hd =>
    have hg : Deed.gain h (some (c.nextSlot h', d)) = 0 := by
      refine if_neg fun hgain => ?_
      rcases hd with rfl | rfl <;> exact absurd hgain.2 (by decide)
    by_cases hh : h = h'
    · subst hh
      refine .gone ?_ hg (.inl (Cache.refs_of_none hf))
      have hlisted : (c.openSlot h).find? h = some (c.nextSlot h) :=
        c.listed_openSlot_nextSlot h
      show (c.openSlot h).refs h = 0
      rw [Cache.refs_of_find? hlisted, c.entry_openSlot_nextSlot]
      rfl
    · refine .same (Cache.refs_congr (c.find?_openSlot_of_ne hh) fun s hs => ?_)
        hg
      rw [hcount s, Deed.on, if_neg]
      · rfl
      · rintro rfl
        exact hh (Cache.find?_eq_some_iff.1 hs).1.symm
  | calls =>
    exact .same (Cache.refs_congr (Cache.find?_setEntry _ _ _)
      fun s _ => hcount s) rfl
  | @leaves hold hev =>
    obtain ⟨found, hs⟩ := hp
    rw [Moves.cacheAfter_leave] at hcount ⊢
    by_cases hl : c.find? h = some hold.slot
    · obtain ⟨rfl, -⟩ := Cache.find?_eq_some_iff.1 hl
      rw [Cache.refs_of_find? hl,
        Cache.refs_of_find? ((Cache.find?_setEntry _ _ _).trans hl),
        Cache.entry_setEntry_self hs.made]
      exact hs.recount_leave hev
    · -- The slot is not the one that is listed for the handle.
      refine .same (Cache.refs_congr (Cache.find?_setEntry _ _ _)
        fun s hfound => ?_) ?_
      · rw [hcount s, Deed.on_of_ne]
        · rfl
        · rintro rfl
          exact hl hfound
      · cases hd : hold.deed? with
        | none => rfl
        | some d =>
          refine if_neg ?_
          rintro ⟨rfl, ht⟩
          exact hl (hs.listed_of_takes hd ht)
  | @evicts hold =>
    obtain ⟨hev, found, hs⟩ := hp
    have hlisted : c.find? hold.slot.handle = some hold.slot :=
      hs.listed_of_evicts hev
    rw [Moves.cacheAfter_leave] at hcount ⊢
    by_cases hh : h = hold.slot.handle
    · subst hh
      have hfind : ((c.evict hold.slot).setEntry hold.slot hold.sec.entry).find?
          hold.slot.handle = none := by
        rw [Cache.find?_setEntry, Cache.find?_evict, if_pos hlisted]
      rw [Cache.refs_of_none hfind, Cache.refs_of_find? hlisted]
      have hdeed := (Errand.evicts_iff_deed? hs.does).1 hev
      rw [← Hold.deed?] at hdeed
      rcases hdeed with hd | hd
      · rw [hd]
        refine .gone rfl (if_neg fun hg => absurd hg.2 (by decide)) (.inl ?_)
        rw [hs.refCount, hs.owns (Errand.owns_of_deed? hd (.inr rfl))]
        rfl
      · rw [hd]
        exact .gone rfl (if_neg fun hg => absurd hg.2 (by decide))
          (.inr ⟨_, rfl, rfl⟩)
    · have hne : ∀ s, c.find? h = some s → s ≠ hold.slot := by
        rintro s hfound rfl
        exact hh (Cache.find?_eq_some_iff.1 hfound).1.symm
      refine .same (Cache.refs_congr ?_ fun s hfound => ?_)
        (Deed.gain_of_ne (Ne.symm hh) _)
      · rw [Cache.find?_setEntry, Cache.find?_evict, if_neg]
        exact fun hfound => hne _ hfound rfl
      · rw [hcount s, Deed.on_of_ne (Ne.symm (hne s hfound))]
        rfl

/-- Whatever is done to a slot that is there is done by who has locked it. -/
theorem Effect.exists_hold (he : Effect c p mv d) (hp : p.Sound conduct c)
    {s : SlotId} {e : Deed} (hd : d = some (s, e))
    (hne : e ≠ .opened ∧ e ≠ .inserted) :
    ∃ (hold : Hold r) (found : Entry),
      hold.Since conduct c found [] ∧ hold.slot = s ∧
      hold.deed? = some e := by
  cases he with
  | still hc => cases hd
  | opens hr hf hq hl hopen =>
    cases hd
    exact (hopen.elim hne.1 hne.2).elim
  | calls => cases hd
  | @leaves hold hev =>
    obtain ⟨found, hs⟩ := hp
    obtain ⟨d', hd', heq⟩ := Option.map_eq_some_iff.1 hd
    cases heq
    exact ⟨hold, found, hs, rfl, hd'⟩
  | @evicts hold =>
    obtain ⟨-, found, hs⟩ := hp
    obtain ⟨d', hd', heq⟩ := Option.map_eq_some_iff.1 hd
    cases heq
    exact ⟨hold, found, hs, rfl, hd'⟩

/-- Who drops a reference to a slot is at a release of its handle. -/
theorem Effect.eq_release (he : Effect c p mv d) (hp : p.Sound conduct c)
    {s : SlotId} (hd : d = some (s, .released)) :
    r = .visit s.handle .release := by
  obtain ⟨hold, found, hs, rfl, hdeed⟩ := he.exists_hold hp hd ⟨nofun, nofun⟩
  obtain ⟨h, rfl⟩ := Errand.release_of_deed? hdeed
  exact congrArg (Request.visit · .release) (Option.some.inj hs.about)

/-- Who unloads a slot is at an unload of its handle. -/
theorem Effect.eq_unload (he : Effect c p mv d) (hp : p.Sound conduct c)
    {s : SlotId} (hd : d = some (s, .unloaded)) :
    r = .visit s.handle .unload := by
  obtain ⟨hold, found, hs, rfl, hdeed⟩ := he.exists_hold hp hd ⟨nofun, nofun⟩
  obtain ⟨h, rfl⟩ := Errand.unload_of_deed? hs.does hdeed
  exact congrArg (Request.visit · .unload) (Option.some.inj hs.about)

/-- What counts something stays listed, unless it is unloaded. -/
theorem Effect.find?_of_refs (he : Effect c p mv d) (hp : p.Sound conduct c)
    {h : Handle} {s : SlotId} (hs : c.find? h = some s) (hn : 0 < c.refs h)
    (hd : ∀ s, d = some (s, .unloaded) → s.handle ≠ h) :
    (mv.cacheAfter c).find? h = some s := by
  cases he with
  | still hc => exact (Cache.find?_of_shelves hc h).trans hs
  | @opens h' q d hr hf hq hl hd =>
    refine (c.find?_openSlot_of_ne ?_).trans hs
    rintro rfl
    rw [hf] at hs
    cases hs
  | calls => exact (Cache.find?_setEntry _ _ _).trans hs
  | leaves hev =>
    rw [Moves.cacheAfter_leave, Cache.find?_setEntry]
    exact hs
  | @evicts hold =>
    obtain ⟨hev, found, hsince⟩ := hp
    rw [Moves.cacheAfter_leave, Cache.find?_setEntry, Cache.find?_evict, if_neg]
    · exact hs
    · intro hfound
      have hdeed := (Errand.evicts_iff_deed? hsince.does).1 hev
      rw [← Hold.deed?] at hdeed
      rcases hdeed with hf | hu
      · -- A load that fails has nothing counted.
        rw [Cache.refs_of_find? hfound, hsince.refCount,
          hsince.owns (Errand.owns_of_deed? hf (.inr rfl))] at hn
        exact Nat.lt_irrefl 0 hn
      · refine hd hold.slot ?_ (Cache.find?_eq_some_iff.1 hfound).1
        rw [hu]
        rfl

/-! ### Accounts -/

namespace Event

variable {κ : Type} (account : Nat → κ)

/-- The accounts of those whose deeds pass a test, the latest first. -/
def doers (test : SlotId → Deed → Bool) (es : List Event) : List κ :=
  es.filterMap fun
    | .did i s d => if test s d then some (account i) else none
    | _ => none

/-- The accounts that took references to slots of a handle, one by one. -/
def takers (h : Handle) (es : List Event) : List κ :=
  doers account (fun s d => s.handle = h ∧ d.Takes) es

/-- The accounts that dropped references to slots of a handle, one by one. -/
def droppers (h : Handle) (es : List Event) : List κ :=
  doers account (fun s d => s.handle = h ∧ d = .released) es

theorem doers_append (test : SlotId → Deed → Bool) (es es' : List Event) :
    doers account test (es ++ es') =
      doers account test es ++ doers account test es' :=
  List.filterMap_append

/-- Of what is recorded of a move only its deed counts. -/
theorem doers_events (test : SlotId → Deed → Bool) {r : Request} (i : Nat)
    (p : Point r) (c : Cache) (mv : Move r) :
    doers account test (mv.events i p c) =
      List.replicate
        ((p.deed? c).elim 0 fun d => if test d.1 d.2 then 1 else 0)
        (account i) := by
  have hans : doers account test (mv.answer?.map (Event.answered i r)).toList =
      [] := by
    cases mv.answer? <;> rfl
  have hbefell : doers account test
      ((mv.happening? p c).map Event.befell).toList = [] := by
    cases mv.happening? p c <;> rfl
  rw [Move.events, Move.marks, doers_append, doers_append, hans, hbefell,
    List.nil_append, List.append_nil]
  cases p.deed? c with
  | none => rfl
  | some x =>
    obtain ⟨s, d⟩ := x
    by_cases hx : test s d = true <;> simp [doers, hx]

theorem takers_events (h : Handle) {r : Request} (i : Nat) (p : Point r)
    (c : Cache) (mv : Move r) :
    takers account h (mv.events i p c) =
      List.replicate (Deed.gain h (p.deed? c)) (account i) := by
  rw [takers, doers_events]
  cases p.deed? c with
  | none => rfl
  | some x => simp [Deed.gain]

theorem droppers_events (h : Handle) {r : Request} (i : Nat) (p : Point r)
    (c : Cache) (mv : Move r) :
    droppers account h (mv.events i p c) =
      List.replicate (Deed.loss h (p.deed? c)) (account i) := by
  rw [droppers, doers_events]
  cases p.deed? c with
  | none => rfl
  | some x => simp [Deed.loss]

variable [DecidableEq κ]

/-- How many references to a handle an account has taken. -/
def takenBy (a : κ) (h : Handle) (es : List Event) : Nat :=
  (takers account h es).count a

/-- How many references to a handle an account has dropped. -/
def droppedBy (a : κ) (h : Handle) (es : List Event) : Nat :=
  (droppers account h es).count a

theorem takenBy_events (a : κ) (h : Handle) {r : Request} (i : Nat)
    (p : Point r) (c : Cache) (mv : Move r) (es : List Event) :
    takenBy account a h (mv.events i p c ++ es) =
      takenBy account a h es +
        if account i = a then Deed.gain h (p.deed? c) else 0 := by
  rw [takenBy, takers, doers_append, List.count_append, ← takers, takers_events,
    List.count_replicate, Nat.add_comm]
  simp [takenBy, takers]

theorem droppedBy_events (a : κ) (h : Handle) {r : Request} (i : Nat)
    (p : Point r) (c : Cache) (mv : Move r) (es : List Event) :
    droppedBy account a h (mv.events i p c ++ es) =
      droppedBy account a h es +
        if account i = a then Deed.loss h (p.deed? c) else 0 := by
  rw [droppedBy, droppers, doers_append, List.count_append, ← droppers,
    droppers_events, List.count_replicate, Nat.add_comm]
  simp [droppedBy, droppers]

end Event

/-- Of two lists the longer has at most as many more of one thing as it is
longer, if it has not fewer of any other. -/
theorem count_le_of_length_le {κ : Type} [DecidableEq κ] {xs ys : List κ}
    {n : Nat} (hle : ∀ a, ys.count a ≤ xs.count a)
    (hlen : xs.length ≤ ys.length + n) (a : κ) :
    xs.count a ≤ ys.count a + n := by
  induction ys generalizing xs with
  | nil =>
    have hcount := List.count_le_length (a := a) (l := xs)
    rw [List.length_nil] at hlen
    omega
  | cons y ys ih =>
    have hmem : y ∈ xs := by
      have hy := hle y
      rw [List.count_cons_self] at hy
      exact List.count_pos_iff.1 (by omega)
    have herase : ∀ b, ys.count b ≤ (xs.erase y).count b := by
      intro b
      have hb := hle b
      rw [List.count_cons] at hb
      rw [List.count_erase]
      omega
    have hshort : (xs.erase y).length ≤ ys.length + n := by
      rw [List.length_erase_of_mem hmem]
      rw [List.length_cons] at hlen
      omega
    have hrest := ih herase hshort
    rw [List.count_erase] at hrest
    rw [List.count_cons]
    omega

end ResourceHost
