import ResourceHost.Proofs.Cache.Calm
import ResourceHost.Proofs.Threads.Discipline

/-!
# A thread that runs alone

While the other threads rest, whoever moves finds free every lock that it does
not hold itself, and finds nothing loading that it did not make.  So it goes on
to the end of its program, and comes to what `Program.run` says: the same answer
and the same cache.
-/

namespace ResourceHost

/-! ### From a point to the answer -/

/-- What is free for a thread at a point while the others rest. -/
def Point.alone {r : Request} (p : Point r) : Free where
  leaf l := p.leaf? ≠ some l
  slot s := p.slot? ≠ some s

/-- A thread that is alone goes on from a point to an answer. -/
inductive Point.Answers {r : Request} :
    Point r → Cache → r.Reply → Cache → Prop where
  | reply {p : Point r} {c c' : Cache} {a : r.Reply} {w : Option SlotId}
      (h : Move.next p.alone p c = .reply a w c') : Answers p c a c'
  | go {p q : Point r} {c c' c'' : Cache} {a : r.Reply}
      (h : Move.next p.alone p c = .go q c') (ha : Answers q c' a c'') :
      Answers p c a c''

namespace Point.Answers

variable {r : Request} {p : Point r} {c : Cache} {s : SlotId}
  {errand : Errand r} {sec : Section r.Reply}

/-- Letting a slot go leads to the answer. -/
theorem of_leave {hold : Hold r} {c' : Cache}
    (hp : Move.next p.alone p c = Move.leave hold c') :
    p.Answers c hold.sec.answer (c'.setEntry hold.slot hold.sec.entry) := by
  unfold Move.leave at hp
  dsimp only at hp
  cases hw : hold.wakes with
  | true =>
    rw [hw] at hp
    exact .go hp (.reply rfl)
  | false =>
    rw [hw] at hp
    exact .reply hp

/-- The callbacks are made one after another, and then the slot is let go, as in
one go. -/
theorem of_inside (hold : Hold r) (calls : List Call) (c : Cache) :
    (Point.inside hold calls).Answers c hold.sec.answer
      (c.carryOut hold.slot { hold.sec with calls := calls }) := by
  induction calls generalizing c with
  | nil =>
    cases hev : hold.sec.evicts with
    | false =>
      have hnext : Move.next (Point.inside hold []).alone (.inside hold []) c =
          Move.leave hold c := by
        simp [Move.next, hev]
      rw [Cache.carryOut, hev]
      exact of_leave hnext
    | true =>
      have hnext : Move.next (Point.inside hold []).alone (.inside hold []) c =
          .go (.evict hold) c := by
        simp [Move.next, hev]
      have hevict : Move.next (Point.evict hold).alone (.evict hold) c =
          .go (.evicting hold) c := rfl
      rw [Cache.carryOut, hev, if_pos rfl, ← Cache.setEntry_evict]
      exact .go hnext (.go hevict (of_leave rfl))
  | cons call rest ih =>
    -- What a callback leaves in the slot is overwritten in the end.
    have hrest : (((c.record [call.callback]).setEntry hold.slot
          call.entry).carryOut hold.slot
        { hold.sec with calls := rest }) =
          c.carryOut hold.slot { hold.sec with calls := call :: rest } := by
      have hlog : (c.record [call.callback]).record (rest.map Call.callback) =
          c.record ((call :: rest).map Call.callback) :=
            Cache.record_record _ _ _
      have hentry := Cache.setEntry_setEntry ((c.record [call.callback]).record
        (rest.map Call.callback)) hold.slot call.entry hold.sec.entry
      rw [hlog] at hentry
      rw [Cache.carryOut, Cache.carryOut, ← hentry, ← hlog]
      rfl
    rw [← hrest]
    exact .go rfl (.go rfl (ih _))

theorem of_work (hs : errand.section? s (c.entry s) = some sec)
    (hp : Move.next p.alone p c = Move.work s errand c) :
    p.Answers c sec.answer (c.carryOut s sec) := by
  unfold Move.work at hp
  rw [hs] at hp
  exact .go hp (of_inside ⟨s, errand, sec⟩ sec.calls c)

/-- Who need not wait takes the lock of a slot and sets to work. -/
theorem of_enter (hw : errand.waits (c.entry s) = false)
    (hc : errand.consults ≠ .inside)
    (hs : errand.section? s (c.entry s) = some sec) :
    (Point.enter s errand).Answers c sec.answer (c.carryOut s sec) := by
  apply of_work hs
  simp [Move.next, Move.enter, Point.alone, Point.slot?, hw, hc]

/-- Who asks for the kind under the lock sets to work with what it is told. -/
theorem of_enter_inside (hw : errand.waits (c.entry s) = false)
    (hc : errand.consults = .inside)
    (hs : (errand.informed (c.kind? s.handle.type)).section? s (c.entry s) =
      some sec) :
    (Point.enter s errand).Answers c sec.answer (c.carryOut s sec) := by
  have hnext : Move.next (Point.enter s errand).alone (.enter s errand) c =
      .go (.consult s errand true) c := by
    simp [Move.next, Move.enter, Point.alone, Point.slot?, hw, hc]
  have hconsult : Move.next (Point.consult s errand true).alone
        (.consult s errand true) c =
      .go (.consulting s errand true) c := rfl
  exact .go hnext (.go hconsult (of_work hs rfl))

end Point.Answers

/-! ### Requests -/

/-- An operation that does not ask for the kind does not depend on it. -/
theorem Visit.inside_of_never {v : Visit} (hv : v.consults = .never)
    (h : Handle) (k? k?' : Option Kind) (e : Entry) :
    v.inside h k? e = v.inside h k?' e := by
  cases v with
  | reload bytes => cases hv
  | unload => cases hv
  | offline => cases hv
  | online => cases hv
  | _ => rfl

namespace Request

open Point

variable {c : Cache} {h : Handle}

/-- What is begun under a leaf lock is begun at once. -/
theorem answers_of_begin {r : Request} {l : Leaf} {a : r.Reply} {c' : Cache}
    (hl : r.leaf? = some l) (ha : (Point.begun : Point r).Answers c a c') :
    (Point.start : Point r).Answers c a c' := by
  have hnext : Move.next (Point.start : Point r).alone (.start : Point r) c =
      .go .begun c := by
    simp [Move.next, hl, Point.alone, Point.leaf?]
  exact .go hnext ha

/-- A visit comes to what it comes to in one go. -/
theorem answers_visit (c : Cache) (h : Handle) (v : Visit) :
    (Point.start : Point (.visit h v)).Answers c (c.visit h v).1
      (c.visit h v).2 := by
  apply answers_of_begin rfl
  cases hf : c.find? h with
  | none =>
    rw [Cache.visit, hf]
    have hnext : Move.begin (.visit h v) c = .reply (v.absent h) none c := by
      simp only [Move.begin, hf]
    exact .reply hnext
  | some s =>
    obtain ⟨rfl, -⟩ := Cache.find?_eq_some_iff.1 hf
    have hvisit : c.visit s.handle v =
        ((v.inside s.handle (c.kind? s.handle.type) (c.entry s)).answer,
          c.carryOut s (v.inside s.handle (c.kind? s.handle.type)
            (c.entry s))) := by
      rw [Cache.visit, hf]
    rw [hvisit]
    cases hv : v.consults with
    | never =>
      have hnext : Move.begin (.visit s.handle v) c =
          .go (.enter s (.visit none)) c := by
        simp [Move.begin, hf, hv]
      refine .go hnext (.of_enter rfl ?_ ?_)
      · show v.consults ≠ .inside
        rw [hv]
        decide
      · rw [Visit.inside_of_never hv _ _ none]
        rfl
    | before =>
      have hnext : Move.begin (.visit s.handle v) c =
          .go (.consult s (.visit none) false) c := by
        simp [Move.begin, hf, hv]
      refine .go hnext (.go rfl (.go rfl (.of_enter rfl ?_ rfl)))
      show v.consults ≠ .inside
      rw [hv]
      decide
    | inside =>
      have hnext : Move.begin (.visit s.handle v) c =
          .go (.enter s (.visit none)) c := by
        simp [Move.begin, hf, hv]
      exact .go hnext (.of_enter_inside rfl hv rfl)

/-- A fresh slot is settled with what comes of its load. -/
theorem answers_settle {h : Handle} {k : Kind} (s : SlotId)
    (outcome : Except Failure Representation) (c : Cache) :
    (Point.enter s (.settle outcome) : Point (.acquire h k)).Answers c
      ((c.entry s).settle h k outcome).answer
        (c.carryOut s ((c.entry s).settle h k outcome)) :=
  .of_enter rfl nofun rfl

/-- A load in a fresh slot comes to what it comes to in one go. -/
theorem answers_fetch {h : Handle} {k : Kind} (c : Cache) (s : SlotId)
    (hs : s.handle = h) :
    (Point.fetch s : Point (.acquire h k)).Answers c
      (((c.fetch s k).2.entry s).settle h k (c.fetch s k).1).answer
      ((c.fetch s k).2.carryOut s
        (((c.fetch s k).2.entry s).settle h k (c.fetch s k).1)) := by
  subst hs
  cases hread : c.source.read s.handle with
  | error why =>
    have hnext : Move.fetch (h := s.handle) (k := k) s c =
        .go (.enter s (.settle (.error (.noBytes s.handle why)))) c := by
      rw [Move.fetch, hread]
    have hfetch : c.fetch s k = (.error (.noBytes s.handle why), c) := by
      rw [Cache.fetch, hread]
    rw [hfetch]
    exact .go hnext (answers_settle s _ c)
  | ok bytes =>
    -- The callback that loads is on record before it comes back.
    have hnext : Move.fetch (h := s.handle) (k := k) s c =
        .go (.loading s bytes) (c.fetch s k).2 := by
      rw [Move.fetch, hread, Cache.fetch, hread]
      cases hload : k.load s.handle bytes <;> simp [Point.callback?, hload]
    have hloaded : Move.loaded (h := s.handle) (k := k) s bytes
          (c.fetch s k).2 =
        .go (.enter s (.settle (c.fetch s k).1)) (c.fetch s k).2 := by
      rw [Move.loaded, Cache.fetch, hread]
      cases hload : k.load s.handle bytes <;> simp [hload]
    exact .go hnext (.go hloaded (answers_settle s _ _))

theorem answers_acquire (hc : c.Calm) (h : Handle) (k : Kind) :
    (Point.start : Point (.acquire h k)).Answers c (c.acquire h k).1
      (c.acquire h k).2 := by
  apply answers_of_begin rfl
  cases hf : c.find? h with
  | none =>
    have hnext : Move.begin (.acquire h k) c =
        .go (.fetch (c.nextSlot h)) (c.openSlot h) := by
      simp only [Move.begin, hf]
    rw [Cache.acquire, hf]
    exact .go hnext (answers_fetch (c.openSlot h) (c.nextSlot h) rfl)
  | some s =>
    have hnext : Move.begin (.acquire h k) c = .go (.enter s .join) c := by
      simp only [Move.begin, hf]
    have hm : c.Made s := hc.made s (Cache.find?_eq_some_iff.1 hf).2
    have hd : (c.entry s).Loaded :=
      (hc.loaded h _ (Cache.lookup?_of_made hf hm)).1
    have hwaits : (Errand.join : Errand (.acquire h k)).waits (c.entry s) =
        false := by
      rcases hd.state with hs | hs <;> simp [Errand.waits, hs]
    rw [Cache.acquire, hf]
    dsimp only
    rw [hd.join?]
    have hnever : (Errand.join : Errand (.acquire h k)).consults ≠ .inside := by
      simp [Errand.consults]
    exact .go hnext (.of_enter hwaits hnever hd.join?)

theorem answers_add (c : Cache) (h : Handle) (k : Kind) (content : Content) :
    (Point.start : Point (.add h k content)).Answers c (c.add h k content).1
      (c.add h k content).2 := by
  apply answers_of_begin rfl
  cases hl : c.isListed h with
  | true =>
    have hnext : Move.begin (.add h k content) c =
        .reply (.error (.alreadyLoaded h)) none c := by
      simp only [Move.begin, hl, if_true]
    rw [Cache.add, hl, if_pos rfl]
    exact .reply hnext
  | false =>
    have hnext : Move.begin (.add h k content) c =
        .go (.enter (c.nextSlot h) .introduce) (c.openSlot h) := by
      simp [Move.begin, hl]
    have hnever : (Errand.introduce : Errand (.add h k content)).consults ≠
        .inside := by
      simp [Errand.consults]
    rw [Cache.add, hl, if_neg Bool.false_ne_true]
    exact .go hnext (.of_enter rfl hnever rfl)

/-- A request comes to what it comes to in one go, if it asks about slots that
are there. -/
theorem answers_run (hc : c.Calm) (r : Request)
    (hs : ∀ s, r = .stateOf s → c.Made s) :
    (Point.start : Point r).Answers c (r.run c).1 (r.run c).2 := by
  cases r with
  | acquire h k => exact answers_acquire hc h k
  | add h k content => exact answers_add c h k content
  | visit h v => exact answers_visit c h v
  | stateOf s =>
    have hsec : (Errand.look : Errand (.stateOf s)).section? s (c.entry s) =
        some ((c.entry s).answering (c.entry s).state) := rfl
    have hnever : (Errand.look : Errand (.stateOf s)).consults ≠ .inside :=
      nofun
    have hlook := Answers.of_enter rfl hnever hsec
    rw [Cache.carryOut_of_answering (hs s rfl)] at hlook
    exact .go rfl hlook
  | kind t => exact answers_of_begin rfl (.reply rfl)
  | register t k => exact answers_of_begin rfl (.reply rfl)
  | isListed h => exact answers_of_begin rfl (.reply rfl)
  | handles => exact answers_of_begin rfl (.reply rfl)
  | slots => exact answers_of_begin rfl (.reply rfl)
  | autoload => exact .reply rfl
  | setAutoload on => exact .reply rfl
  | read h => exact .reply rfl

end Request

/-! ### Machines -/

namespace Thread

variable {α : Type} {t : Thread α}

theorem leaf?_of_atRest (ht : t.atRest = true) : t.leaf? = none := by
  cases t with
  | finished a => rfl
  | busy r p next =>
    cases p with
    | start => rfl
    | _ => cases ht

theorem slot?_of_atRest (ht : t.atRest = true) : t.slot? = none := by
  cases t with
  | finished a => rfl
  | busy r p next =>
    cases p with
    | start => rfl
    | _ => cases ht

theorem woken_of_atRest (ht : t.atRest = true) (s : SlotId) :
    t.woken s = t := by
  cases t with
  | finished a => rfl
  | busy r p next =>
    cases p with
    | start => rfl
    | _ => cases ht

theorem atRest_ofProgram (p : Program α) : (ofProgram p).atRest = true := by
  cases p <;> rfl

end Thread

namespace Machine

variable {α : Type} {conduct : Conduct} {m m₀ m' : Machine α}
  {es es' : List Event} {i : Nat}

/-- A cache is calm while no thread is amid a request. -/
theorem Inv.calm (hinv : m.Inv conduct) (hst : ∀ h, ∃ st, m.Stands h st)
    (hrest : ∀ t ∈ m.threads, t.atRest = true) : m.cache.Calm := by
  refine ⟨hinv.orderly.made, fun h e hl => ?_⟩
  cases hf : m.cache.find? h with
  | none =>
    rw [Cache.lookup?_of_find? hf] at hl
    cases hl
  | some s =>
    obtain ⟨rfl, hlisted⟩ := Cache.find?_eq_some_iff.1 hf
    have hm : m.cache.Made s := hinv.orderly.made s hlisted
    rw [Cache.lookup?_of_made hf hm] at hl
    cases hl
    refine ⟨?_, hinv.orderly.typed s hm⟩
    obtain ⟨st, hst⟩ := hst s.handle
    cases hst with
    | absent hnone =>
      rw [hf] at hnone
      cases hnone
    | @still s' hs hl' hd hn =>
      obtain rfl : s' = s := hl'.unique hlisted hs
      exact hd
    | @working i r p next s' st hi hs hw ht =>
      have hidle := hrest _ (List.mem_of_getElem? hi)
      cases p with
      | start => exact absurd hw (Moves.not_atWork_of_idle rfl rfl)
      | _ => cases hidle

theorem Course.calm (hr : Course conduct m₀ es m) (h₀ : m₀.Starts conduct)
    (hrest : ∀ t ∈ m.threads, t.atRest = true) : m.cache.Calm :=
  (hr.inv h₀).calm (hr.exists_stands h₀) hrest

/-- Beside a thread the others rest. -/
def OthersRest (m : Machine α) (i : Nat) : Prop :=
  ∀ j t, j ≠ i → m.threads[j]? = some t → t.atRest = true

section

variable {r : Request} {p : Point r} {next : r.Reply → Program α}

/-- What no thread that rests holds is free for the one that moves. -/
theorem OthersRest.free_eq (ho : m.OthersRest i)
    (hi : m.threads[i]? = some (.busy r p next)) : m.free = p.alone := by
  have hall : ∀ {β : Type} [DecidableEq β] (f : Thread α → Option β) (x : β),
      (∀ t : Thread α, t.atRest = true → f t = none) →
      (m.threads.all fun t => f t ≠ some x) =
        decide (f (.busy r p next) ≠ some x) := by
    intro β _ f x hf
    rw [Bool.eq_iff_iff, List.all_eq_true, decide_eq_true_iff]
    constructor
    · intro hx
      exact of_decide_eq_true (hx _ (List.mem_of_getElem? hi))
    · intro hx t ht
      obtain ⟨j, hj⟩ := List.getElem?_of_mem ht
      apply decide_eq_true
      by_cases hji : j = i
      · subst hji
        cases hi.symm.trans hj
        exact hx
      · rw [hf t (ho j t hji hj)]
        exact nofun
  have hleaf : m.free.leaf = p.alone.leaf := by
    funext l
    exact hall Thread.leaf? l fun t ht => Thread.leaf?_of_atRest ht
  have hslot : m.free.slot = p.alone.slot := by
    funext s
    exact hall Thread.slot? s fun t ht => Thread.slot?_of_atRest ht
  calc m.free = ⟨m.free.leaf, m.free.slot⟩ := rfl
    _ = p.alone := by rw [hleaf, hslot]

theorem OthersRest.set (ho : m.OthersRest i) (c : Cache) (t : Thread α) :
    OthersRest ⟨c, m.threads.set i t⟩ i := by
  intro j u hji hj
  exact ho j u hji ((List.getElem?_set_ne (Ne.symm hji)).symm.trans hj)

/-- Nobody wakes who rests. -/
theorem OthersRest.wake_set (ho : m.OthersRest i) (w : Option SlotId)
    (t : Thread α) : (wake w m.threads).set i t = m.threads.set i t := by
  cases w with
  | none => rfl
  | some s =>
    apply List.ext_getElem?
    intro j
    by_cases hji : j = i
    · subst hji
      simp [wake, List.getElem?_set]
    · have hne : i ≠ j := Ne.symm hji
      rw [List.getElem?_set_ne hne, List.getElem?_set_ne hne, wake,
        List.getElem?_map]
      cases hj : m.threads[j]? with
      | none => rfl
      | some u => exact congrArg some (Thread.woken_of_atRest (ho j u hji hj) s)

/-- A step of a thread that is alone. -/
theorem OthersRest.step_eq (ho : m.OthersRest i)
    (hi : m.threads[i]? = some (.busy r p next)) {mv : Move r}
    (hmv : Move.next p.alone p m.cache = mv) (hb : mv ≠ .blocked) :
    m.step i = some ⟨mv.cacheAfter m.cache,
      m.threads.set i (mv.thread p next)⟩ := by
  unfold step
  rw [hi]
  dsimp only
  rw [ho.free_eq hi, hmv]
  cases mv with
  | blocked => exact absurd rfl hb
  | go q c => rfl
  | reply a w c =>
    dsimp only
    rw [ho.wake_set]
    rfl

/-- A thread that is alone gets its answer. -/
theorem OthersRest.exists_course (ho : m.OthersRest i)
    (hi : m.threads[i]? = some (.busy r p next)) {a : r.Reply} {c c' : Cache}
    (ha : p.Answers c a c') (hc : m.cache = c) :
    ∃ es, Course conduct m es ⟨c', m.threads.set i (.ofProgram (next a))⟩ := by
  induction ha generalizing m with
  | reply h =>
    rw [← hc] at h
    exact ⟨_, .step .refl (ho.step_eq hi h nofun)⟩
  | @go p q c c' c'' a h ha ih =>
    rw [← hc] at h
    have hi' : (m.threads.set i (.busy r q next))[i]? =
        some (.busy r q next) := by
      rw [List.getElem?_set_self]
      exact (List.getElem?_eq_some_iff.1 hi).1
    obtain ⟨es, hr⟩ := ih (ho.set c' (.busy r q next)) hi' rfl
    rw [List.set_set] at hr
    exact ⟨_, (Course.step .refl (ho.step_eq hi h nofun)).trans hr⟩

end

/-- From any calm moment of any run: a thread that goes on while the others rest
can go on to its end, and comes to what its program comes to that runs alone. -/
theorem alone (h₀ : m₀.Starts conduct) (hr : Course conduct m₀ es m)
    (hrest : ∀ t ∈ m.threads, t.atRest = true) {p : Program α}
    (hi : m.threads[i]? = some (.ofProgram p)) :
    ∃ es', Course conduct m es'
      ⟨(p.run m.cache).2, m.threads.set i (.finished (p.run m.cache).1)⟩ := by
  induction p generalizing m es with
  | done a =>
    have hsame : m.threads.set i (.finished a) = m.threads := by
      obtain ⟨hlt, heq⟩ := List.getElem?_eq_some_iff.1 hi
      rw [← show Thread.ofProgram (.done a) = .finished a from rfl, ← heq]
      exact List.set_getElem_self hlt
    refine ⟨[], ?_⟩
    show Course conduct m [] ⟨m.cache, m.threads.set i (.finished a)⟩
    rw [hsame]
    exact .refl
  | ask r next ih =>
    have hothers : m.OthersRest i :=
      fun j t _ hj => hrest t (List.mem_of_getElem? hj)
    have hmade : ∀ s, r = .stateOf s → m.cache.Made s := by
      rintro s rfl
      obtain ⟨-, hand, hholds, hhonest⟩ := (hr.inv h₀).sound i _ hi
      exact hholds.slots s hhonest.1
    have hfirst : ∃ es₁, Course conduct m es₁
        ⟨(r.run m.cache).2,
          m.threads.set i (.ofProgram (next (r.run m.cache).1))⟩ :=
      hothers.exists_course hi (Request.answers_run (hr.calm h₀ hrest) r hmade)
        rfl
    obtain ⟨es₁, hr₁⟩ := hfirst
    have hi₁ : (m.threads.set i (.ofProgram (next (r.run m.cache).1)))[i]? =
        some (.ofProgram (next (r.run m.cache).1)) := by
      rw [List.getElem?_set_self]
      exact (List.getElem?_eq_some_iff.1 hi).1
    have hrest₁ : ∀ t ∈ m.threads.set i (.ofProgram (next (r.run m.cache).1)),
        t.atRest = true := by
      intro t ht
      rcases List.mem_or_eq_of_mem_set ht with ht | rfl
      · exact hrest t ht
      · exact Thread.atRest_ofProgram _
    obtain ⟨es₂, hr₂⟩ := ih _ (hr.trans hr₁) hrest₁ hi₁
    rw [List.set_set] at hr₂
    exact ⟨_, hr₁.trans hr₂⟩

end Machine

end ResourceHost
