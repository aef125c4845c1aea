import ResourceHost.Cache.Operations
import ResourceHost.Proofs.Cache.Shelves
import ResourceHost.Proofs.Threads.Errands

/-!
# Handles are isolated

What an operation on one handle answers, and what it leaves, depends only on
what the cache keeps for that handle; and nothing that it does shows for another
one.  So a run can be cut down to the operations on one handle, and operations
on different handles can change places.

The handles share the table, the source, the registry and the log.  `Alike` is
what of them belongs to one handle, and `Confined` says of a change that it
keeps to that.  Kinds are no way around: what a callback makes depends on its
arguments alone, which are the handle, its bytes and what is held for it.
-/

namespace ResourceHost

/-! ### The callbacks of a section -/

/-- Every callback of a section is about one handle. -/
def Section.About {α : Type} (sec : Section α) (h : Handle) : Prop :=
  ∀ call ∈ sec.calls, call.callback.handle = h

/-- A section without callbacks is about any handle. -/
theorem Section.about_of_nil {α : Type} {sec : Section α} (hs : sec.calls = [])
    (h : Handle) : sec.About h := by
  intro call hcall
  rw [hs] at hcall
  cases hcall

/-- An operation on an entry calls back about its handle only. -/
theorem Visit.about_inside (h : Handle) (kind? : Option Kind) (e : Entry)
    (v : Visit) : (v.inside h kind? e).About h :=
  fun _ hcall => (Visit.mem_calls_inside hcall).1.handle

theorem Entry.about_settle (h : Handle) (k : Kind)
    (outcome : Except Failure Representation) (e : Entry) :
    (e.settle h k outcome).About h := by
  cases outcome with
  | ok r =>
    intro call hcall
    rw [List.mem_singleton.1 hcall]
    rfl
  | error f => exact Section.about_of_nil rfl h

theorem Entry.about_join {h : Handle} {e : Entry}
    {sec : Section (Except Failure Unit)} (hj : e.join? = some sec) :
    sec.About h := by
  unfold join? at hj
  split at hj
  · cases hj
    exact Section.about_of_nil rfl h
  · cases hj
    exact Section.about_of_nil rfl h
  · obtain ⟨f, -, rfl⟩ := Option.map_eq_some_iff.1 hj
    exact Section.about_of_nil rfl h

/-- Keeps its bytes in a table. -/
def Source.InMemory (s : Source) : Prop := ∃ data, s = .memory data

namespace Cache

/-! ### What belongs to one handle -/

/-- Two caches are alike at a handle: it has the same slots, the same one
listed, the same bytes, the same kind, and the same callbacks have been made for
it. -/
structure Alike (h : Handle) (c c' : Cache) : Prop where
  shelf : c'.shelf h = c.shelf h
  read : c'.source.read h = c.source.read h
  kind? : c'.kind? h.type = c.kind? h.type
  calls : c'.log.filter (·.handle = h) = c.log.filter (·.handle = h)

variable {c c' c'' : Cache} {h h' : Handle} {s : SlotId}

theorem Alike.refl (h : Handle) (c : Cache) : Alike h c c :=
  ⟨rfl, rfl, rfl, rfl⟩

theorem Alike.symm (ha : Alike h c c') : Alike h c' c :=
  ⟨ha.shelf.symm, ha.read.symm, ha.kind?.symm, ha.calls.symm⟩

theorem Alike.trans (ha : Alike h c c') (hb : Alike h c' c'') : Alike h c c'' :=
  ⟨hb.shelf.trans ha.shelf, hb.read.trans ha.read, hb.kind?.trans ha.kind?,
    hb.calls.trans ha.calls⟩

namespace Alike

theorem find? (ha : Alike h c c') : c'.find? h = c.find? h := by
  rw [Cache.find?, Cache.find?, ha.shelf]

theorem isListed (ha : Alike h c c') : c'.isListed h = c.isListed h := by
  rw [Cache.isListed, Cache.isListed, ha.shelf]

theorem nextSlot (ha : Alike h c c') : c'.nextSlot h = c.nextSlot h := by
  rw [Cache.nextSlot, Cache.nextSlot, ha.shelf]

theorem entry (ha : Alike s.handle c c') : c'.entry s = c.entry s := by
  rw [Cache.entry, Cache.entry, Cache.entry?, Cache.entry?, ha.shelf]

theorem lookup? (ha : Alike h c c') : c'.lookup? h = c.lookup? h :=
  lookup?_of_shelf ha.shelf

/-! ### The same change on both sides -/

theorem setShelf (ha : Alike h c c') (shelf : Shelf) :
    Alike h (c.setShelf h shelf) (c'.setShelf h shelf) :=
  ⟨by rw [shelf_setShelf_self, shelf_setShelf_self],
    ha.read, ha.kind?, ha.calls⟩

theorem openSlot (ha : Alike h c c') :
    Alike h (c.openSlot h) (c'.openSlot h) := by
  unfold Cache.openSlot
  rw [ha.shelf]
  exact ha.setShelf _

theorem record (ha : Alike h c c') (cs : List Callback) :
    Alike h (c.record cs) (c'.record cs) :=
  ⟨ha.shelf, ha.read, ha.kind?, by
    rw [log_record, log_record, List.filter_append, List.filter_append,
      ha.calls]⟩

theorem setEntry (ha : Alike s.handle c c') (e : Entry) :
    Alike s.handle (c.setEntry s e) (c'.setEntry s e) := by
  unfold Cache.setEntry
  rw [ha.shelf]
  exact ha.setShelf _

theorem evict (ha : Alike s.handle c c') :
    Alike s.handle (c.evict s) (c'.evict s) := by
  unfold Cache.evict
  rw [ha.shelf]
  dsimp only
  split
  · exact ha.setShelf _
  · exact ha

theorem carryOut {α : Type} (ha : Alike s.handle c c') (sec : Section α) :
    Alike s.handle (c.carryOut s sec) (c'.carryOut s sec) := by
  have hb := (ha.record (sec.calls.map Call.callback)).setEntry sec.entry
  unfold Cache.carryOut
  dsimp only
  split
  · exact hb.evict
  · exact hb

end Alike

/-! ### Changes that do not show -/

theorem alike_setShelf_of_ne (hne : h' ≠ h) (c : Cache) (shelf : Shelf) :
    Alike h' c (c.setShelf h shelf) :=
  ⟨shelf_setShelf_of_ne c hne shelf, rfl, rfl, rfl⟩

theorem alike_record_of_ne (hne : h' ≠ h) (c : Cache) {cs : List Callback}
    (hcs : ∀ x ∈ cs, x.handle = h) : Alike h' c (c.record cs) := by
  refine ⟨rfl, rfl, rfl, ?_⟩
  have hnone : cs.reverse.filter (·.handle = h') = [] := by
    refine List.filter_eq_nil_iff.2 fun x hx => ?_
    rw [hcs x (List.mem_reverse.1 hx)]
    exact fun heq => hne (of_decide_eq_true heq).symm
  rw [log_record, List.filter_append, hnone, List.nil_append]

theorem alike_evict_of_ne (hne : h' ≠ s.handle) (c : Cache) :
    Alike h' c (c.evict s) := by
  unfold evict
  dsimp only
  split
  · exact alike_setShelf_of_ne hne c _
  · exact .refl h' c

theorem alike_carryOut_of_ne {α : Type} (hne : h' ≠ s.handle) (c : Cache)
    {sec : Section α} (hsec : sec.About s.handle) :
    Alike h' c (c.carryOut s sec) := by
  have hcs : ∀ x ∈ sec.calls.map Call.callback, x.handle = s.handle := by
    intro x hx
    obtain ⟨call, hcall, rfl⟩ := List.mem_map.1 hx
    exact hsec call hcall
  have hb : Alike h' c ((c.record (sec.calls.map Call.callback)).setEntry s
      sec.entry) :=
    (alike_record_of_ne hne c hcs).trans (alike_setShelf_of_ne hne _ _)
  unfold carryOut
  dsimp only
  split
  · exact hb.trans (alike_evict_of_ne hne _)
  · exact hb

theorem source_carryOut {α : Type} (c : Cache) (s : SlotId) (sec : Section α) :
    (c.carryOut s sec).source = c.source := by
  unfold carryOut evict
  dsimp only
  split
  · split <;> rfl
  · rfl

/-! ### Changes that keep to one handle -/

/-- A change keeps to a handle, for sources of which `I` is true: what it
answers and leaves there depends on what is there, and it does not show for
other handles. -/
structure Confined {β : Type} (I : Source → Prop) (h : Handle)
    (f : Cache → β × Cache) : Prop where
  keeps : ∀ c, I c.source → I (f c).2.source
  others : ∀ c h', I c.source → h' ≠ h → Alike h' c (f c).2
  agrees : ∀ c c', I c.source → I c'.source → Alike h c c' →
    (f c').1 = (f c).1 ∧ Alike h (f c).2 (f c').2

section

variable {α β γ : Type} {I : Source → Prop} {f : Cache → β × Cache}

theorem Confined.answering (h : Handle) (b : β) :
    Confined I h fun c => (b, c) :=
  ⟨fun _ hi => hi, fun c h' _ _ => .refl h' c, fun _ _ _ _ ha => ⟨rfl, ha⟩⟩

/-- One change, and then another that may depend on what the first answered. -/
theorem Confined.bind {g : β → Cache → γ × Cache} (hf : Confined I h f)
    (hg : ∀ b, Confined I h (g b)) :
    Confined I h fun c => g (f c).1 (f c).2 := by
  refine ⟨fun c hi => ?_, fun c h' hi hne => ?_, fun c c' hi hi' ha => ?_⟩
  · exact (hg _).keeps _ (hf.keeps c hi)
  · exact (hf.others c h' hi hne).trans ((hg _).others _ h' (hf.keeps c hi) hne)
  · obtain ⟨hanswer, hafter⟩ := hf.agrees c c' hi hi' ha
    rw [hanswer]
    exact (hg _).agrees _ _ (hf.keeps c hi) (hf.keeps c' hi') hafter

/-- A change whose course is settled by what it finds at the handle. -/
theorem Confined.of_alike
    (hf : ∀ c, ∃ g, Confined I h g ∧ ∀ c', Alike h c c' → f c' = g c') :
    Confined I h f := by
  refine ⟨fun c hi => ?_, fun c h' hi hne => ?_, fun c c' hi hi' ha => ?_⟩ <;>
    obtain ⟨g, hg, heq⟩ := hf c
  · rw [heq c (.refl h c)]
    exact hg.keeps c hi
  · rw [heq c (.refl h c)]
    exact hg.others c h' hi hne
  · rw [heq c (.refl h c), heq c' ha]
    exact hg.agrees c c' hi hi' ha

/-! ### Requests -/

theorem confined_record {cs : List Callback} (hcs : ∀ x ∈ cs, x.handle = h)
    (b : β) : Confined I h fun c => (b, c.record cs) :=
  ⟨fun _ hi => hi, fun c _ _ hne => alike_record_of_ne hne c hcs,
    fun _ _ _ _ ha => ⟨rfl, ha.record cs⟩⟩

theorem confined_openSlot (h : Handle) :
    Confined I h fun c => ((), c.openSlot h) :=
  ⟨fun _ hi => hi, fun c _ _ hne => alike_setShelf_of_ne hne c _,
    fun _ _ _ _ ha => ⟨rfl, ha.openSlot⟩⟩

/-- A section on a slot, made from what is there. -/
theorem confined_section {sec : Cache → Section α}
    (habout : ∀ c, (sec c).About s.handle)
    (hsec : ∀ c c', Alike s.handle c c' → sec c' = sec c) :
    Confined I s.handle fun c => ((sec c).answer, c.carryOut s (sec c)) := by
  refine ⟨fun c hi => ?_, fun c h' _ hne => ?_, fun c c' _ _ ha => ?_⟩
  · rw [source_carryOut]
    exact hi
  · exact alike_carryOut_of_ne hne c (habout c)
  · rw [hsec c c' ha]
    exact ⟨rfl, ha.carryOut (sec c)⟩

theorem confined_fetch (s : SlotId) (k : Kind) :
    Confined I s.handle fun c => c.fetch s k := by
  have hload : ∀ (bytes : List UInt8) (o : Except Failure Representation),
      ∀ x ∈ [Callback.load k s.handle bytes o], x.handle = s.handle := by
    intro bytes o x hx
    rw [List.mem_singleton.1 hx]
    rfl
  refine .of_alike fun c => ?_
  cases hr : c.source.read s.handle with
  | error why =>
    exact ⟨_, .answering s.handle (.error (.noBytes s.handle why)),
      fun c' ha => by rw [fetch, ha.read, hr]⟩
  | ok bytes =>
    cases hk : k.load s.handle bytes with
    | ok content =>
      let x := Entry.firstObject s content
      exact ⟨_, confined_record (hload bytes (.ok x)) (.ok x),
        fun c' ha => by simp only [fetch, ha.read, hr, hk]; rfl⟩
    | error f =>
      exact ⟨_,
        confined_record (hload bytes (.error f)) (.error (.loader s.handle f)),
        fun c' ha => by simp only [fetch, ha.read, hr, hk]⟩

/-- Ends the load that a slot was made for. -/
def settleIn (s : SlotId) (k : Kind) (outcome : Except Failure Representation)
    (c : Cache) : Except Failure Unit × Cache :=
  let sec := (c.entry s).settle s.handle k outcome
  (sec.answer, c.carryOut s sec)

theorem confined_settleIn (s : SlotId) (k : Kind)
    (outcome : Except Failure Representation) :
    Confined I s.handle (settleIn s k outcome) :=
  confined_section (fun c => Entry.about_settle _ k outcome _)
    fun c c' ha => by rw [ha.entry]

theorem confined_loadFresh (h : Handle) (k : Kind) :
    Confined I h fun c => c.loadFresh h k := by
  refine .of_alike fun c => ?_
  have hfetch : Confined I h fun c' => (c'.openSlot h).fetch (c.nextSlot h) k :=
    (confined_openSlot h).bind (g := fun _ c' => c'.fetch (c.nextSlot h) k)
      fun _ => confined_fetch (c.nextSlot h) k
  refine ⟨_, hfetch.bind (confined_settleIn (c.nextSlot h) k), fun c' ha => ?_⟩
  simp only [loadFresh, ha.nextSlot]
  rfl

theorem confined_acquire (h : Handle) (k : Kind) :
    Confined I h fun c => c.acquire h k := by
  refine .of_alike fun c => ?_
  cases hs : c.find? h with
  | none =>
    exact ⟨_, confined_loadFresh h k,
      fun c' ha => by rw [acquire, ha.find?, hs]⟩
  | some s =>
    obtain ⟨rfl, -⟩ := find?_eq_some_iff.1 hs
    cases hj : (c.entry s).join? with
    | none =>
      exact ⟨_, confined_loadFresh s.handle k,
        fun c' ha => by simp only [acquire, ha.find?, hs, ha.entry, hj]⟩
    | some sec =>
      have hsec : Confined I s.handle fun c => (sec.answer, c.carryOut s sec) :=
        confined_section (fun _ => Entry.about_join hj) fun _ _ _ => rfl
      exact ⟨_, hsec,
        fun c' ha => by simp only [acquire, ha.find?, hs, ha.entry, hj]⟩

theorem confined_add (h : Handle) (k : Kind) (content : Content) :
    Confined I h fun c => c.add h k content := by
  refine .of_alike fun c => ?_
  cases hl : c.isListed h with
  | true =>
    exact ⟨_, .answering h (.error (.alreadyLoaded h)),
      fun c' ha => by rw [add, ha.isListed, hl, if_pos rfl]⟩
  | false =>
    have hadd := (confined_openSlot (I := I) h).bind (g := fun _ =>
      settleIn (c.nextSlot h) k
        (.ok (Entry.firstObject (c.nextSlot h) content))) fun _ =>
          confined_settleIn (c.nextSlot h) k _
    refine ⟨_, hadd, fun c' ha => ?_⟩
    rw [add, ha.isListed, hl, ha.nextSlot]
    rfl

theorem confined_visit (h : Handle) (v : Visit) :
    Confined I h fun c => c.visit h v := by
  refine .of_alike fun c => ?_
  cases hs : c.find? h with
  | none =>
    exact ⟨_, .answering h (v.absent h),
      fun c' ha => by rw [visit, ha.find?, hs]⟩
  | some s =>
    obtain ⟨rfl, -⟩ := find?_eq_some_iff.1 hs
    have hsec : Confined I s.handle fun c =>
        ((v.inside s.handle (c.kind? s.handle.type) (c.entry s)).answer,
          c.carryOut s (v.inside s.handle (c.kind? s.handle.type)
            (c.entry s))) :=
      confined_section (fun c => Visit.about_inside _ _ _ v)
        fun c c' ha => by rw [ha.entry, ha.kind?]
    exact ⟨_, hsec, fun c' ha => by rw [visit, ha.find?, hs]⟩

/-! ### Programs -/

theorem Confined.programBind {p : Program α} {next : α → Program β}
    (hp : Confined I h p.run) (hnext : ∀ a, Confined I h (next a).run) :
    Confined I h (p >>= next).run := by
  have hrun : (p >>= next).run = fun c => (next (p.run c).1).run (p.run c).2 :=
    funext fun c => Program.run_bind p next c
  rw [hrun]
  exact hp.bind (g := fun a => (next a).run) hnext

theorem Confined.orStop {p : Program (Except Failure α)}
    {next : α → Program (Except Failure β)} (hp : Confined I h p.run)
    (hnext : ∀ a, Confined I h (next a).run) :
    Confined I h (p.orStop next).run := by
  refine hp.programBind fun o => ?_
  cases o with
  | ok a => exact hnext a
  | error f => exact .answering h _

theorem confined_kindOf (h : Handle) : Confined I h (kindOf h.type).run := by
  have hask : Confined I h (Program.request (.kind h.type)).run :=
    .of_alike fun c => ⟨_, .answering h (c.kind? h.type),
      fun c' ha => by rw [← ha.kind?]; rfl⟩
  refine hask.programBind fun kind? => ?_
  cases kind? with
  | none => exact .answering h _
  | some k => exact .answering h _

theorem confined_readSource (h : Handle) : Confined I h (readSource h).run := by
  have hask : Confined I h (Program.request (.read h)).run :=
    .of_alike fun c => ⟨_, .answering h (c.source.read h),
      fun c' ha => by rw [← ha.read]; rfl⟩
  refine hask.programBind fun r => ?_
  cases r with
  | error why => exact .answering h _
  | ok bytes => exact .answering h _

theorem confined_load (h : Handle) : Confined I h (load h.type [h.name]).run :=
  (confined_kindOf h).orStop fun k =>
    (confined_acquire h k).orStop fun _ => .answering h _

theorem confined_addLoaded (h : Handle) (content : Content) :
    Confined I h (addLoaded h content).run :=
  (confined_kindOf h).orStop fun k => confined_add h k content

theorem confined_canGet (h : Handle) : Confined I h (canGet h).run :=
  (confined_visit h .state).programBind fun _ => .answering h _

theorem confined_reloadFromSource (h : Handle) :
    Confined I h (reloadFromSource h.type [h.name]).run :=
  (confined_readSource h).orStop fun bytes =>
    (confined_visit h (.reload bytes)).orStop fun _ => .answering h _

end

/-! ### Operations on one handle -/

/-- What may be done with one handle and its bytes. -/
inductive Operation where
  | load
  | addLoaded (content : Content)
  | get
  | canGet
  | state
  | refCount
  | release
  | offline
  | online
  | reload (bytes : List UInt8)
  | reloadFromSource
  | unload
  /-- Stores bytes in the source. -/
  | put (bytes : List UInt8)
  /-- Takes the bytes out of the source. -/
  | remove

namespace Operation

/-- What an operation answers. -/
abbrev Reply : Operation → Type
  | .get => Except Failure Representation
  | .canGet => Bool
  | .state => State
  | .refCount => Nat
  | .release => Except Failure Nat
  | .put _ => Unit
  | .remove => Option (List UInt8)
  | _ => Except Failure Unit

/-- Carries out an operation on a handle. -/
def run (h : Handle) : (o : Operation) → Cache → o.Reply × Cache
  | .load => (Cache.load h.type [h.name]).run
  | .addLoaded content => (Cache.addLoaded h content).run
  | .get => (Cache.get h).run
  | .canGet => (Cache.canGet h).run
  | .state => (Cache.state h).run
  | .refCount => (Cache.refCount h).run
  | .release => (Cache.release h).run
  | .offline => (Cache.offline h).run
  | .online => (Cache.online h).run
  | .reload bytes => (Cache.reload h bytes).run
  | .reloadFromSource => (Cache.reloadFromSource h.type [h.name]).run
  | .unload => (Cache.unload h).run
  | .put bytes => fun c => ((), { c with source := c.source.put h bytes })
  | .remove => fun c =>
    ((c.source.read h).toOption, { c with source := c.source.remove h })

/-- Changes what the source has. -/
def stores : Operation → Bool
  | .put _ | .remove => true
  | _ => false

theorem confined_of_not_stores {I : Source → Prop} {o : Operation}
    (ho : o.stores = false) (h : Handle) : Confined I h (o.run h) := by
  cases o with
  | load => exact confined_load h
  | addLoaded content => exact confined_addLoaded h content
  | canGet => exact confined_canGet h
  | reloadFromSource => exact confined_reloadFromSource h
  | put bytes => cases ho
  | remove => cases ho
  | get => exact confined_visit h .get
  | state => exact confined_visit h .state
  | refCount => exact confined_visit h .refCount
  | release => exact confined_visit h .release
  | offline => exact confined_visit h .offline
  | online => exact confined_visit h .online
  | reload bytes => exact confined_visit h (.reload bytes)
  | unload => exact confined_visit h .unload

/-- In a table of bytes every handle has its own. -/
theorem confined_of_inMemory (h : Handle) (o : Operation) :
    Confined Source.InMemory h (o.run h) := by
  cases hs : o.stores with
  | false => exact confined_of_not_stores hs h
  | true =>
    cases o with
    | put bytes =>
      refine ⟨?_, ?_, ?_⟩
      · rintro c ⟨data, hdata⟩
        exact ⟨data.put h bytes, by simp only [run, hdata, Source.put]⟩
      · rintro c h' ⟨data, hdata⟩ hne
        refine ⟨rfl, ?_, rfl, rfl⟩
        simp only [run, hdata, Source.put, Source.read,
          Table.get?_put_of_ne data hne]
      · rintro c c' ⟨data, hdata⟩ ⟨data', hdata'⟩ ha
        refine ⟨rfl, ha.shelf, ?_, ha.kind?, ha.calls⟩
        simp only [run, hdata, hdata', Source.put, Source.read,
          Table.get?_put_self]
    | remove =>
      refine ⟨?_, ?_, ?_⟩
      · rintro c ⟨data, hdata⟩
        exact ⟨data.drop h, by simp only [run, hdata, Source.remove]⟩
      · rintro c h' ⟨data, hdata⟩ hne
        refine ⟨rfl, ?_, rfl, rfl⟩
        simp only [run, hdata, Source.remove, Source.read,
          Table.get?_drop_of_ne data hne]
      · rintro c c' ⟨data, hdata⟩ ⟨data', hdata'⟩ ha
        refine ⟨congrArg Except.toOption ha.read, ha.shelf, ?_, ha.kind?,
          ha.calls⟩
        simp only [run, hdata, hdata', Source.remove, Source.read,
          Table.get?_drop_self]
    | _ => cases hs

end Operation

/-! ### Runs -/

/-- An operation on a handle. -/
structure Use where
  handle : Handle
  operation : Operation

/-- What a use was answered with. -/
abbrev Answered := (u : Use) × u.operation.Reply

/-- Uses of a cache, one after another, with their answers. -/
def runAll : List Use → Cache → List Answered × Cache
  | [], c => ([], c)
  | u :: us, c =>
    let (a, c₁) := u.operation.run u.handle c
    let (answers, c₂) := runAll us c₁
    (⟨u, a⟩ :: answers, c₂)

/-- The uses of a handle. -/
def usesOf (h : Handle) (us : List Use) : List Use := us.filter (·.handle = h)

/-- The answers about a handle. -/
def answersOf (h : Handle) (answers : List Answered) : List Answered :=
  answers.filter (·.1.handle = h)

section

variable {I : Source → Prop} {us us' : List Use}

/-- Beside a run, the uses of one handle alone: the induction is on the run, and
the two caches stay alike at the handle. -/
theorem runAll_usesOf
    (hus : ∀ u ∈ us, Confined I u.handle (u.operation.run u.handle))
    (hi : I c.source) (hi' : I c'.source) (ha : Alike h c c') :
    (runAll (usesOf h us) c').1 = answersOf h (runAll us c).1 ∧
      Alike h (runAll us c).2 (runAll (usesOf h us) c').2 := by
  induction us generalizing c c' with
  | nil => exact ⟨rfl, ha⟩
  | cons u us ih =>
    have hu := hus u List.mem_cons_self
    have hrest := fun u' hu' => hus u' (List.mem_cons_of_mem u hu')
    by_cases hh : u.handle = h
    · subst hh
      obtain ⟨hanswer, hafter⟩ := hu.agrees c c' hi hi' ha
      obtain ⟨hanswers, hend⟩ :=
        ih hrest (hu.keeps c hi) (hu.keeps c' hi') hafter
      have huses : usesOf u.handle (u :: us) = u :: usesOf u.handle us := by
        simp [usesOf]
      rw [huses]
      refine ⟨?_, hend⟩
      simp only [runAll, hanswers, hanswer]
      simp [answersOf]
    · have huses : usesOf h (u :: us) = usesOf h us := by simp [usesOf, hh]
      have hother := hu.others c h hi (Ne.symm hh)
      obtain ⟨hanswers, hend⟩ :=
        ih hrest (hu.keeps c hi) hi' (hother.symm.trans ha)
      rw [huses]
      refine ⟨?_, hend⟩
      rw [hanswers]
      simp [runAll, answersOf, hh]

/-- Runs with the same uses of a handle cannot be told apart there. -/
theorem runAll_congr
    (hus : ∀ u ∈ us, Confined I u.handle (u.operation.run u.handle))
    (hus' : ∀ u ∈ us', Confined I u.handle (u.operation.run u.handle))
    (hi : I c.source) (heq : usesOf h us = usesOf h us') :
    answersOf h (runAll us c).1 = answersOf h (runAll us' c).1 ∧
      Alike h (runAll us c).2 (runAll us' c).2 := by
  obtain ⟨hanswers, hend⟩ := runAll_usesOf hus hi hi (.refl h c)
  obtain ⟨hanswers', hend'⟩ := runAll_usesOf hus' hi hi (.refl h c)
  rw [heq] at hanswers hend
  exact ⟨hanswers.symm.trans hanswers', hend.trans hend'.symm⟩

/-- Uses of different handles that follow each other can change places. -/
theorem usesOf_swap (h : Handle) (before after : List Use) {u v : Use}
    (hne : u.handle ≠ v.handle) :
    usesOf h (before ++ u :: v :: after) =
      usesOf h (before ++ v :: u :: after) := by
  by_cases hu : u.handle = h
  · have hv : v.handle ≠ h := fun hv => hne (hu.trans hv.symm)
    simp [usesOf, hu, hv]
  · by_cases hv : v.handle = h
    · simp [usesOf, hu, hv]
    · simp [usesOf, hu, hv]

end

/-- Whether a source can keep the uses of a run apart: it is a table, or the run
leaves it as it is. -/
def Apart (c : Cache) (us : List Use) : Prop :=
  c.source.InMemory ∨ ∀ u ∈ us, u.operation.stores = false

/-- Of a run of operations on single handles, those on other handles can be
deleted: the operations on a handle are answered the same, and its entry is the
same in the end.  And operations on different handles that follow each other can
change places: each handle has the same answers, and the same entry in the
end. -/
theorem isolated {us : List Use} (hsrc : c.Apart us) :
    (∀ h, (runAll (usesOf h us) c).1 = answersOf h (runAll us c).1 ∧
      (runAll (usesOf h us) c).2.lookup? h = (runAll us c).2.lookup? h ∧
      Alike h (runAll us c).2 (runAll (usesOf h us) c).2) ∧
    ∀ (before after : List Use) (u v : Use), us = before ++ u :: v :: after →
      u.handle ≠ v.handle → ∀ h,
        answersOf h (runAll us c).1 =
          answersOf h (runAll (before ++ v :: u :: after) c).1 ∧
        (runAll us c).2.lookup? h =
          (runAll (before ++ v :: u :: after) c).2.lookup? h ∧
        Alike h (runAll us c).2 (runAll (before ++ v :: u :: after) c).2 := by
  obtain ⟨I, hi, hus⟩ : ∃ I : Source → Prop, I c.source ∧
      ∀ u ∈ us, Confined I u.handle (u.operation.run u.handle) := by
    rcases hsrc with hm | hs
    · exact ⟨_, hm,
        fun u _ => Operation.confined_of_inMemory u.handle u.operation⟩
    · exact ⟨fun _ => True, trivial, fun u hu =>
        Operation.confined_of_not_stores (hs u hu) u.handle⟩
  refine ⟨fun h => ?_, ?_⟩
  · obtain ⟨hanswers, hend⟩ := runAll_usesOf hus hi hi (.refl h c)
    exact ⟨hanswers, hend.lookup?, hend⟩
  · rintro before after u v rfl hne h
    have hperm : (before ++ v :: u :: after).Perm (before ++ u :: v :: after) :=
      (List.Perm.swap u v after).append_left before
    have hswapped : ∀ w ∈ before ++ v :: u :: after,
        Confined I w.handle (w.operation.run w.handle) :=
          fun w hw => hus w (hperm.mem_iff.1 hw)
    obtain ⟨hanswers, hend⟩ :=
      runAll_congr hus hswapped hi (usesOf_swap h before after hne)
    exact ⟨hanswers, hend.lookup?.symm, hend⟩

/-- A cache with bytes for one resource and none for its neighbour of the same
type. -/
def halfStocked : Cache where
  kinds := Table.empty.put ⟨1⟩ (Kind.raw 3)
  source := .memory (Table.empty.put ⟨⟨1⟩, ⟨1⟩⟩ [7])

/-- The neighbour fails to load, is loaded and is unloaded, in the midst of
operations on the resource: these are answered as they are without it. -/
theorem isolated_of_halfStocked :
    let mine : Handle := ⟨⟨1⟩, ⟨1⟩⟩
    let other : Handle := ⟨⟨1⟩, ⟨2⟩⟩
    let us : List Use := [⟨mine, .load⟩, ⟨other, .load⟩, ⟨other, .put [8]⟩,
      ⟨other, .load⟩, ⟨mine, .reloadFromSource⟩, ⟨other, .unload⟩,
      ⟨mine, .refCount⟩]
    halfStocked.Apart us ∧
      answersOf mine (runAll us halfStocked).1 =
        [⟨⟨mine, .load⟩, .ok ()⟩, ⟨⟨mine, .reloadFromSource⟩, .ok ()⟩,
          ⟨⟨mine, .refCount⟩, 1⟩] ∧
      answersOf other (runAll us halfStocked).1 =
        [⟨⟨other, .load⟩, .error (.noBytes other (.noData other))⟩,
          ⟨⟨other, .put [8]⟩, ()⟩, ⟨⟨other, .load⟩, .ok ()⟩,
            ⟨⟨other, .unload⟩, .ok ()⟩] ∧
      ((runAll us halfStocked).2.lookup? mine).map Entry.refCount = some 1 := by
  intro mine other us
  have hsrc : halfStocked.Apart us := .inl ⟨_, rfl⟩
  have hmine := (isolated hsrc).1 mine
  have hother := (isolated hsrc).1 other
  refine ⟨hsrc, ?_, ?_, ?_⟩
  · rw [← hmine.1]
    rfl
  · rw [← hother.1]
    rfl
  · rw [← hmine.2.1]
    rfl

end Cache

end ResourceHost
