import ResourceHost.Package.Loading
import ResourceHost.Proofs.Cache.Loads

/-!
# Sources that come to the same

What a cache does with the bytes of a resource depends on what its kind makes of
them, and on nothing else about them.  So two caches that differ only in such
bytes cannot be told apart by loading: they answer the same, keep the same, and
make the same callbacks in the same order, up to the bytes that these are told.
-/

namespace ResourceHost

/-- A callback without the bytes that were loaded. -/
def Callback.outline : Callback → Callback
  | .load k h _ outcome => .load k h [] outcome
  | call => call

/-- Two sources have the same for a handle as far as a kind can tell: the same
answer, or bytes of which it makes the same. -/
inductive Source.Matches (k : Kind) (h : Handle) (src src' : Source) :
    Prop where
  | same (heq : src'.read h = src.read h)
  | made {bytes bytes' : List UInt8} (hread : src.read h = .ok bytes)
      (hread' : src'.read h = .ok bytes')
      (heq : k.load h bytes' = k.load h bytes)

namespace Cache

/-! ### Twins -/

/-- Two caches with the same kinds, which keep the same, whose sources come to
the same for these kinds, and whose callbacks were the same up to the bytes that
were loaded. -/
structure Twins (kinds : Table TypeId Kind) (c c' : Cache) : Prop where
  left : c.kinds = kinds
  right : c'.kinds = kinds
  shelves : c'.shelves = c.shelves
  source : ∀ h k, kinds.get? h.type = some k → c.source.Matches k h c'.source
  calls : c'.log.map Callback.outline = c.log.map Callback.outline

variable {kinds : Table TypeId Kind} {c c' : Cache} {h : Handle} {k : Kind}
  {s : SlotId}

namespace Twins

theorem shelf (ht : Twins kinds c c') (h : Handle) : c'.shelf h = c.shelf h :=
  shelf_eq_of_shelves ht.shelves h

theorem find? (ht : Twins kinds c c') (h : Handle) :
    c'.find? h = c.find? h := by
  rw [Cache.find?, Cache.find?, ht.shelf]

theorem nextSlot (ht : Twins kinds c c') (h : Handle) :
    c'.nextSlot h = c.nextSlot h := by
  rw [Cache.nextSlot, Cache.nextSlot, ht.shelf]

theorem nextObject (ht : Twins kinds c c') (h : Handle) :
    c'.nextObject h = c.nextObject h :=
  funext fun content => by rw [Cache.nextObject, Cache.nextObject, ht.nextSlot]

theorem entry (ht : Twins kinds c c') (s : SlotId) :
    c'.entry s = c.entry s := by
  rw [Cache.entry, Cache.entry, Cache.entry?, Cache.entry?, ht.shelf]

/-! ### The same change on both sides -/

theorem setShelf (ht : Twins kinds c c') (h : Handle) (shelf : Shelf) :
    Twins kinds (c.setShelf h shelf) (c'.setShelf h shelf) :=
  ⟨ht.left, ht.right, by rw [Cache.setShelf, Cache.setShelf, ht.shelves],
    ht.source, ht.calls⟩

theorem openSlot (ht : Twins kinds c c') (h : Handle) :
    Twins kinds (c.openSlot h) (c'.openSlot h) := by
  unfold Cache.openSlot
  rw [ht.shelf]
  exact ht.setShelf h _

theorem record {cs cs' : List Callback} (ht : Twins kinds c c')
    (hcs : cs'.map Callback.outline = cs.map Callback.outline) :
    Twins kinds (c.record cs) (c'.record cs') :=
  ⟨ht.left, ht.right, ht.shelves, ht.source, by
    rw [log_record, log_record, List.map_append, List.map_append,
      List.map_reverse, List.map_reverse, hcs, ht.calls]⟩

theorem setEntry (ht : Twins kinds c c') (s : SlotId) (e : Entry) :
    Twins kinds (c.setEntry s e) (c'.setEntry s e) := by
  unfold Cache.setEntry
  rw [ht.shelf]
  exact ht.setShelf s.handle _

theorem evict (ht : Twins kinds c c') (s : SlotId) :
    Twins kinds (c.evict s) (c'.evict s) := by
  unfold Cache.evict
  rw [ht.shelf]
  dsimp only
  split
  · exact ht.setShelf s.handle _
  · exact ht

theorem carryOut {α : Type} (ht : Twins kinds c c') (s : SlotId)
    (sec : Section α) : Twins kinds (c.carryOut s sec) (c'.carryOut s sec) := by
  have hcalls : Twins kinds (c.record (sec.calls.map Call.callback))
      (c'.record (sec.calls.map Call.callback)) := ht.record rfl
  have hentry := hcalls.setEntry s sec.entry
  unfold Cache.carryOut
  dsimp only
  split
  · exact hentry.evict s
  · exact hentry

/-! ### Loads -/

theorem loads (ht : Twins kinds c c') (hk : kinds.get? h.type = some k) :
    c'.loads k h = c.loads k h := by
  unfold Cache.loads
  cases ht.source h k hk with
  | same heq => rw [heq]
  | made hread hread' heq =>
    rw [hread, hread']
    dsimp only
    rw [heq]

theorem fetchCalls (ht : Twins kinds c c') (hk : kinds.get? h.type = some k) :
    (c'.fetchCalls k h).map Callback.outline =
      (c.fetchCalls k h).map Callback.outline := by
  unfold Cache.fetchCalls
  cases ht.source h k hk with
  | same heq => rw [heq, ht.nextObject]
  | made hread hread' heq =>
    rw [hread, hread', ht.nextObject]
    dsimp only
    rw [heq]
    rfl

end Twins

/-! ### What cannot be told apart -/

/-- Twins are answered the same, and are twins afterwards. -/
def Agrees {β : Type} (kinds : Table TypeId Kind) (f : Cache → β × Cache) :
    Prop :=
  ∀ ⦃c c'⦄, Twins kinds c c' → (f c').1 = (f c).1 ∧ Twins kinds (f c).2 (f c').2

variable {α β : Type}

theorem Agrees.exists_ends {f : Cache → β × Cache} (hf : Agrees kinds f)
    (ht : Twins kinds c c') :
    ∃ answer d d', f c = (answer, d) ∧
      f c' = (answer, d') ∧ Twins kinds d d' := by
  obtain ⟨hanswer, hafter⟩ := hf ht
  exact ⟨(f c).1, (f c).2, (f c').2, rfl, Prod.ext hanswer rfl, hafter⟩

theorem agrees_loadFresh (hk : kinds.get? h.type = some k) :
    Agrees kinds fun c => c.loadFresh h k := by
  intro c c' ht
  have hfetched := (ht.openSlot h).record (ht.fetchCalls hk)
  simp only [loadFresh, fetch_openSlot]
  simp only [ht.loads hk, ht.nextObject, ht.nextSlot, hfetched.entry, true_and]
  exact hfetched.carryOut _ _

theorem agrees_acquire (hk : kinds.get? h.type = some k) :
    Agrees kinds fun c => c.acquire h k := by
  intro c c' ht
  simp only [acquire, ht.find?]
  cases c.find? h with
  | none => exact agrees_loadFresh hk ht
  | some s =>
    simp only [ht.entry]
    cases (c.entry s).join? with
    | none => exact agrees_loadFresh hk ht
    | some sec => exact ⟨rfl, ht.carryOut s sec⟩

theorem agrees_get (h : Handle) : Agrees kinds (get h).run := by
  intro c c' ht
  show (c'.visit h .get).1 = (c.visit h .get).1 ∧
    Twins kinds (c.visit h .get).2 (c'.visit h .get).2
  simp only [visit, ht.find?]
  cases c.find? h with
  | none => exact ⟨rfl, ht⟩
  | some s =>
    simp only [ht.entry]
    exact ⟨rfl, ht.carryOut s _⟩

/-! ### Programs -/

theorem agrees_pure (a : α) : Agrees kinds (pure a : Program α).run :=
  fun _ _ ht => ⟨rfl, ht⟩

theorem Agrees.orStop {p : Program (Except Failure α)}
    {f : α → Program (Except Failure β)} (hp : Agrees kinds p.run)
    (hf : ∀ a, Agrees kinds (f a).run) : Agrees kinds (p.orStop f).run := by
  intro c c' ht
  obtain ⟨hanswer, hafter⟩ := hp ht
  rw [Program.run_orStop, Program.run_orStop, hanswer]
  cases (p.run c).1 with
  | error e => exact ⟨rfl, hafter⟩
  | ok a => exact hf a hafter

theorem agrees_acquireAll {t : TypeId} (hk : kinds.get? t = some k)
    (names : List NameId) : Agrees kinds (acquireAll t k names).run := by
  induction names with
  | nil => exact agrees_pure _
  | cons n ns ih =>
    exact Agrees.orStop (agrees_acquire (h := ⟨t, n⟩) hk) fun _ => ih

theorem agrees_load (t : TypeId) (names : List NameId) :
    Agrees kinds (load t names).run := by
  intro c c' ht
  unfold load
  split
  · exact ⟨rfl, ht⟩
  · rw [Program.run_orStop, Program.run_orStop, run_kindOf, run_kindOf, kind?,
      kind?, ht.left, ht.right]
    cases hk : kinds.get? t with
    | none => exact ⟨rfl, ht⟩
    | some k => exact agrees_acquireAll hk names ht

theorem agrees_getPackage (h : Handle) : Agrees kinds (getPackage h).run := by
  refine (agrees_get h).orStop fun r => ?_
  cases r.content.asPackage? with
  | none => exact agrees_pure _
  | some m => exact agrees_pure _

end Cache

namespace Package

variable {kinds : Table TypeId Kind}

theorem agrees_loadGroups (gs : List Group) :
    Cache.Agrees kinds (loadGroups gs).run := by
  induction gs with
  | nil => exact Cache.agrees_pure _
  | cons g gs ih => exact (Cache.agrees_load g.type g.names).orStop fun _ => ih

/-- Scheduling a package comes to the same on twins, and so does what it
loads. -/
theorem agrees_schedule (p : NameId) : Cache.Agrees kinds (schedule p).run := by
  refine (Cache.agrees_getPackage (handle p)).orStop fun m c c' ht => ?_
  obtain ⟨hanswer, hafter⟩ := agrees_loadGroups m.groups ht
  rw [Program.run_bind, Program.run_bind, hanswer]
  exact ⟨rfl, hafter⟩

end Package

end ResourceHost
