import ResourceHost.Proofs.Threads.Stories

/-!
# References

The entry of a slot counts one reference since it was filled, one more for each
load that joined and one less for each release, however the threads interleave.
A load that is answered with success has taken one of these references, on one
slot, and one that fails has taken none.
-/

namespace ResourceHost

/-! ### The references of a request -/

/-- Whether an answer tells that a reference was taken. -/
def Request.took : (r : Request) → r.Reply → Bool
  | .acquire _ _, .ok _ => true
  | .add _ _ _, .ok _ => true
  | _, _ => false

/-- The slots on which a thread took references since it was last answered. -/
def Event.taken (i : Nat) : List Event → List SlotId
  | [] => []
  | .did j s d :: es => if j = i ∧ d.Takes then s :: taken i es else taken i es
  | .befell _ :: es => taken i es
  | .answered j _ _ :: es => if j = i then [] else taken i es

/-- One reference, on a slot of the handle, if the answer tells so; else
none. -/
def Request.Took (r : Request) (a : r.Reply) (taken : List SlotId) : Prop :=
  if r.took a then ∃ s, r.handle? = some s.handle ∧ taken = [s] else taken = []

/-- The references that a thread has taken so far within its request. -/
def Point.taken {r : Request} : Point r → List SlotId
  | .rouse s a => if r.took a then [s] else []
  | _ => []

def Thread.taken {α : Type} : Thread α → List SlotId
  | .finished _ => []
  | .busy _ p _ => p.taken

theorem Visit.deed?_cases {v : Visit} {evicts : Bool} {d : Deed}
    (h : v.deed? evicts = some d) : d = .released ∨ d = .unloaded := by
  cases v <;> cases evicts <;> cases h <;>
    first | exact .inl rfl | exact .inr rfl

theorem Thread.taken_roused {α : Type} {t : Thread α} (w : Option SlotId) :
    (t.roused w).taken = t.taken := by
  cases t with
  | finished a => cases w <;> rfl
  | busy r p next =>
    rcases roused_busy w p next with h | ⟨s, errand, rfl, h⟩ <;> rw [h]
    rfl

/-- An errand takes a reference if its answer tells so. -/
theorem Errand.took_iff {r : Request} {errand : Errand r} {s : SlotId}
    {e : Entry} {sec : Section r.Reply} (hs : errand.section? s e = some sec) :
    r.took sec.answer = true ↔
      ∃ d, errand.deed? sec.answer sec.evicts = some d ∧ d.Takes := by
  cases errand with
  | settle outcome =>
    cases outcome with
    | ok x =>
      cases hs
      exact iff_of_true rfl ⟨.settled, rfl, .inl rfl⟩
    | error f =>
      cases hs
      refine iff_of_false Bool.false_ne_true ?_
      rintro ⟨d, hd, ht⟩
      cases hd
      exact absurd ht (by decide)
  | join =>
    rcases Errand.join_cases hs with rfl | ⟨f, rfl⟩
    · exact iff_of_true rfl ⟨.joined, rfl, .inr rfl⟩
    · refine iff_of_false Bool.false_ne_true ?_
      rintro ⟨d, hd, -⟩
      cases hd
  | introduce =>
    cases hs
    exact iff_of_true rfl ⟨.settled, rfl, .inl rfl⟩
  | @visit h v kind? =>
    refine iff_of_false Bool.false_ne_true ?_
    rintro ⟨d, hd, ht⟩
    rcases Visit.deed?_cases (v := v) hd with rfl | rfl <;>
      exact absurd ht (by decide)
  | look =>
    refine iff_of_false Bool.false_ne_true ?_
    rintro ⟨d, hd, -⟩
    cases hd

/-- What a request about no handle, or a visit, answers tells of no
reference. -/
theorem Request.took_eq_false {r : Request} (hr : ∀ h, ¬ r.Opens h)
    (a : r.Reply) : r.took a = false := by
  cases r with
  | acquire h k => exact absurd ⟨k, .inl rfl⟩ (hr h)
  | add h k content => exact absurd ⟨k, .inr ⟨content, rfl⟩⟩ (hr h)
  | _ => rfl

/-- The references taken by the deed of a move. -/
def Deed.taken : Option (SlotId × Deed) → List SlotId
  | some (s, d) => if d.Takes then [s] else []
  | none => []

/-- What a thread has taken after letting a slot go is what its answer tells. -/
theorem Hold.taken {conduct : Conduct} {c : Cache} {r : Request} {hold : Hold r}
    {found : Entry} (hs : hold.Since conduct c found []) :
    Deed.taken (hold.deed?.map fun d => (hold.slot, d)) =
      if r.took hold.sec.answer then [hold.slot] else [] := by
  have htook := Errand.took_iff hs.does
  rw [← Hold.deed?] at htook
  cases hd : hold.deed? with
  | none =>
    rw [hd] at htook
    have hno : ¬ r.took hold.sec.answer = true := by
      intro h
      obtain ⟨d, hd, -⟩ := htook.1 h
      cases hd
    rw [if_neg hno]
    rfl
  | some d =>
    rw [hd] at htook
    show (if d.Takes then [hold.slot] else []) = _
    by_cases ht : d.Takes
    · rw [if_pos ht, if_pos (htook.2 ⟨d, rfl, ht⟩)]
    · have hno : ¬ r.took hold.sec.answer = true := by
        intro h
        obtain ⟨d', hd', ht'⟩ := htook.1 h
        cases hd'
        exact ht ht'
      rw [if_neg ht, if_neg hno]

theorem Request.took_of_took {r : Request} {a : r.Reply} {s : SlotId}
    (hr : r.handle? = some s.handle) :
    r.Took a (if r.took a then [s] else []) := by
  unfold Request.Took
  by_cases h : r.took a = true
  · rw [if_pos h, if_pos h]
    exact ⟨s, hr, rfl⟩
  · rw [if_neg h, if_neg h]

theorem Request.took_nil {r : Request} {a : r.Reply} (h : r.took a = false) :
    r.Took a [] := by
  unfold Request.Took
  rw [h]
  rfl

/-- To begin takes no reference yet. -/
theorem Point.taken_of_opening {r : Request} {c : Cache} {p : Point r}
    (ho : p.Opening) : Deed.taken (p.deed? c) ++ p.taken = [] := by
  rcases ho with ⟨rfl, -⟩ | rfl
  · rfl
  · show Deed.taken (r.deed? c) ++ [] = []
    rw [List.append_nil]
    cases r with
    | acquire h k =>
      unfold Request.deed?
      dsimp only
      split <;> rfl
    | add h k content =>
      unfold Request.deed?
      dsimp only
      split <;> rfl
    | _ => rfl

/-- A move leaves a thread that has taken `u` with what its new point or its
answer tells. -/
structure Move.Accounts {r : Request} (u : List SlotId) (mv : Move r) :
    Prop where
  point : ∀ q, mv.point? = some q → q.taken = u
  answer : ∀ a, mv.answer? = some a → r.Took a u

theorem Move.accounts_go {r : Request} {q : Point r} {u : List SlotId}
    (hq : q.taken = u) (c : Cache) : (Move.go q c).Accounts u := by
  refine ⟨?_, ?_⟩
  · intro q' hq'
    cases hq'
    exact hq
  · intro a ha
    cases ha

theorem Move.accounts_reply {r : Request} {a : r.Reply} {u : List SlotId}
    (ha : r.Took a u) (w : Option SlotId) (c : Cache) :
    (Move.reply a w c).Accounts u := by
  refine ⟨?_, ?_⟩
  · intro q hq
    cases hq
  · intro a' ha'
    cases Option.some.inj ha'
    exact ha

theorem Move.accounts_leave {conduct : Conduct} {c : Cache} {r : Request}
    {hold : Hold r} {found : Entry} (hs : hold.Since conduct c found [])
    (c' : Cache) :
    (Move.leave hold c').Accounts
      (Deed.taken (hold.deed?.map fun d => (hold.slot, d))) := by
  rw [Hold.taken hs]
  unfold Move.leave
  cases hw : hold.wakes with
  | true => exact accounts_go (by rfl) _
  | false => exact accounts_reply (Request.took_of_took hs.about) _ _

/-- What a thread has taken when it answers is what the answer tells; until
then it has taken what its point tells. -/
theorem Moves.taken {conduct : Conduct} {r : Request} {free : Free} {c : Cache}
    {p : Point r} {mv : Move r} (h : Moves free c p mv)
    (hp : p.Sound conduct c) :
    mv.Accounts (Deed.taken (p.deed? c) ++ p.taken) := by
  -- A reference is taken as a slot is let go: the answer is given at once, or
  -- after the waking.
  cases h with
  | leave hev =>
    obtain ⟨found, hs⟩ := hp
    simp only [Point.deed?, hev, Bool.false_eq_true, if_false]
    rw [show (Point.inside _ []).taken = [] from rfl, List.append_nil]
    exact Move.accounts_leave hs c
  | evict =>
    obtain ⟨-, found, hs⟩ := hp
    rw [show (Point.evicting _).taken = [] from rfl, List.append_nil]
    exact Move.accounts_leave hs _
  | rouse => exact Move.accounts_reply (Request.took_of_took hp) _ _
  | answer ho hr =>
    rw [Point.taken_of_opening ho]
    refine Move.accounts_reply (Request.took_nil (Request.took_eq_false ?_ _)) _
      _
    intro h hopens
    rw [hopens.handle?] at hr
    cases hr
  | refuse ho hs =>
    rw [Point.taken_of_opening ho]
    exact Move.accounts_reply (Request.took_nil rfl) _ _
  | absent ho hs =>
    rw [Point.taken_of_opening ho]
    exact Move.accounts_reply (Request.took_nil rfl) _ _
  | look ho =>
    rw [Point.taken_of_opening ho]
    exact Move.accounts_go (by rfl) _
  | join ho hs =>
    rw [Point.taken_of_opening ho]
    exact Move.accounts_go (by rfl) _
  | load ho hs =>
    rw [Point.taken_of_opening ho]
    exact Move.accounts_go (by rfl) _
  | insert ho hs =>
    rw [Point.taken_of_opening ho]
    exact Move.accounts_go (by rfl) _
  | find ho hs hv =>
    rw [Point.taken_of_opening ho]
    exact Move.accounts_go (by rfl) _
  | findAndAsk ho hs hv =>
    rw [Point.taken_of_opening ho]
    exact Move.accounts_go (by rfl) _
  | wait hev =>
    simp only [Point.deed?, hev, if_true]
    exact Move.accounts_go (by rfl) _
  | _ => exact Move.accounts_go (by rfl) _

/-! ### Along a run -/

theorem Event.taken_append_did (i j : Nat) (x : Option (SlotId × Deed))
    (es : List Event) :
    taken i ((x.map fun d => Event.did j d.1 d.2).toList ++ es) =
      if j = i then Deed.taken x ++ taken i es else taken i es := by
  cases x with
  | none =>
    show taken i es = if j = i then taken i es else taken i es
    split <;> rfl
  | some x =>
    obtain ⟨s, d⟩ := x
    show (if j = i ∧ d.Takes then s :: taken i es else taken i es) =
      if j = i then (if d.Takes then [s] else []) ++ taken i es else taken i es
    by_cases hj : j = i
    · by_cases hd : d.Takes
      · simp [hj, hd]
      · simp [hj, hd]
    · simp [hj]

/-- Of what is recorded of a move only its deed takes a reference. -/
theorem Event.taken_append_marks {r : Request} (i j : Nat) (p : Point r)
    (c : Cache) (mv : Move r) (es : List Event) :
    taken i (mv.marks j p c ++ es) =
      if j = i then Deed.taken (p.deed? c) ++ taken i es else taken i es := by
  have hbefell : taken i (((mv.happening? p c).map Event.befell).toList ++ es) =
      taken i es := by
    cases mv.happening? p c <;> rfl
  rw [Move.marks, List.append_assoc, taken_append_did, hbefell]

/-- Every answer tells what had been taken for it. -/
def Event.Accounted : List Event → Prop
  | [] => True
  | .did _ _ _ :: es => Accounted es
  | .befell _ :: es => Accounted es
  | .answered i r a :: es => r.Took a (taken i es) ∧ Accounted es

theorem Event.Accounted.took {later earlier : List Event} {i : Nat}
    {r : Request} {a : r.Reply}
    (h : Accounted (later ++ .answered i r a :: earlier)) :
    r.Took a (taken i earlier) := by
  induction later with
  | nil => exact h.1
  | cons e later ih =>
    cases e with
    | did j s d => exact ih h
    | befell x => exact ih h
    | answered j r' a' => exact ih h.2

namespace Machine

variable {α : Type} {conduct : Conduct} {m₀ m : Machine α} {es : List Event}

/-- What a thread has taken since it was answered is what its point tells. -/
theorem Course.taken (h : Course conduct m₀ es m) (h₀ : m₀.Starts conduct)
    {i : Nat} {t : Thread α} (hi : m.threads[i]? = some t) :
    Event.taken i es = t.taken := by
  induction h generalizing t with
  | refl =>
    obtain ⟨p, rfl, -⟩ := h₀.thread hi
    cases p <;> rfl
  | @step es m m' j h hs ih =>
    obtain ⟨r, p, next, mv, hj, hmv, hev, rfl⟩ := step_cases hs
    have hmoves := hmv.taken ((h.inv h₀).sound j _ hj).1
    rw [hev, Move.events, List.append_assoc]
    rcases getElem?_set_wake hi with ⟨rfl, rfl⟩ | ⟨hij, t₀, ht₀, rfl⟩
    · -- The thread that moved starts afresh with its next request once it is
      -- answered.
      cases hmv' : mv with
      | blocked => exact absurd hmv' hmv.ne_blocked
      | go q c =>
        subst hmv'
        have hbefore : Event.taken i es = p.taken := ih hj
        show Event.taken i (Move.marks i p m.cache (.go q c) ++ es) = _
        rw [Event.taken_append_marks, if_pos rfl, hbefore]
        exact (hmoves.point q rfl).symm
      | reply a w c =>
        show (if i = i then [] else _) = (Thread.ofProgram (next a)).taken
        rw [if_pos rfl]
        cases next a <;> rfl
    · have hskip : Event.taken i
          ((mv.answer?.map (Event.answered j r)).toList ++
            (mv.marks j p m.cache ++ es)) = Event.taken i es := by
        have hji : j ≠ i := Ne.symm hij
        cases mv.answer? with
        | none =>
          show Event.taken i (mv.marks j p m.cache ++ es) = _
          rw [Event.taken_append_marks, if_neg hji]
        | some a =>
          show (if j = i then []
            else Event.taken i (mv.marks j p m.cache ++ es)) = _
          rw [if_neg hji, Event.taken_append_marks, if_neg hji]
      rw [hskip, ih ht₀, Thread.taken_roused]
  | drift h hc ih => exact ih hi
  | stir h j ih =>
    obtain ⟨t₀, w, ht₀, rfl⟩ := exists_of_getElem?_stir hi
    rw [ih ht₀, Thread.taken_roused]

theorem Course.accounted (h : Course conduct m₀ es m) (h₀ : m₀.Starts conduct) :
    Event.Accounted es := by
  induction h with
  | refl => trivial
  | @step es m m' j h hs ih =>
    obtain ⟨r, p, next, mv, hj, hmv, hev, rfl⟩ := step_cases hs
    have hmoves := hmv.taken ((h.inv h₀).sound j _ hj).1
    have hbefore : Event.taken j es = p.taken := h.taken h₀ hj
    have hmarks : Event.Accounted (mv.marks j p m.cache ++ es) := by
      rw [Move.marks]
      cases p.deed? m.cache <;> cases mv.happening? p m.cache <;> exact ih
    rw [hev, Move.events, List.append_assoc]
    cases ha : mv.answer? with
    | none => exact hmarks
    | some a =>
      refine ⟨?_, hmarks⟩
      show r.Took a (Event.taken j (mv.marks j p m.cache ++ es))
      rw [Event.taken_append_marks, if_pos rfl, hbefore]
      exact hmoves.answer a ha
  | drift h hc ih => exact ih
  | stir h j ih => exact ih

/-- However the threads interleave: the count of every slot is what its deeds
say; a slot that is listed and filled was filled once, with one reference, and
since then references have only been taken by joining and dropped by releases;
and a request that tells of a reference has taken it, alone, on one slot of its
handle, while any other has taken none. -/
theorem references (h₀ : m₀.Starts conduct) (h : Course conduct m₀ es m) :
    (∀ s : SlotId, (m.cache.entry s).refCount =
      (Event.deedsOn s es).foldr Deed.refs 0) ∧
    (∀ s : SlotId, m.cache.Listed s → ¬ (m.cache.entry s).Waiting →
      ∃ later earlier : List Deed,
        Event.deedsOn s es = later ++ .settled :: earlier ∧
        (∀ d ∈ later, d.Late) ∧ (∀ d ∈ earlier, d.Early) ∧
        (m.cache.entry s).refCount = later.foldr Deed.refs 1) ∧
    ∀ (later earlier : List Event) (i : Nat) (r : Request) (a : r.Reply),
      es = later ++ .answered i r a :: earlier →
      r.Took a (Event.taken i earlier) := by
  have hinv := h.inv h₀
  refine ⟨h.refCount h₀, ?_, ?_⟩
  · intro s hl hw
    rcases (h.story h₀ s).listed_cases (hinv.orderly.made s hl) hl with
      ⟨hwait, -⟩ | ⟨-, later, earlier, hds, hlater, hearlier⟩
    · exact absurd hwait hw
    · refine ⟨later, earlier, hds, hlater, hearlier, ?_⟩
      rw [h.refCount h₀ s, hds, List.foldr_append]
      rfl
  · intro later earlier i r a hes
    have hacc := h.accounted h₀
    rw [hes] at hacc
    exact hacc.took

/-- One of two loads joins the other, and one reference is dropped: one is
left. -/
theorem references_of_callers :
    (callers [loader, loader, dropper]).Starts rawConduct ∧
      ∃ (es : List Event) (m : Machine (Except Failure Unit)),
        Course rawConduct (callers [loader, loader, dropper]) es m ∧
          Event.deedsOn ⟨theirs, 0⟩ es =
            [.released, .joined, .settled, .opened] ∧
          (m.cache.entry ⟨theirs, 0⟩).refCount = 1 := by
  have h₀ : (callers [loader, loader, dropper]).Starts rawConduct := by
    refine starts_callers fun p hp => ?_
    have hcases : p = loader ∨ p = dropper := by simpa using hp
    rcases hcases with rfl | rfl
    · exact Cache.load_honest _ _
    · exact (Cache.release_honest _).orStop fun _ _ => trivial
  have hrun := exists_course rawConduct (callers [loader, loader, dropper])
    (List.replicate 4 2 ++ List.replicate 6 1 ++ List.replicate 11 0)
    (P := fun es _ => Event.deedsOn ⟨theirs, 0⟩ es =
      [.released, .joined, .settled, .opened])
    (by decide +kernel)
  obtain ⟨es, m, hr, hend⟩ := hrun
  have hdeeds := of_decide_eq_true hend
  refine ⟨h₀, es, m, hr, hdeeds, ?_⟩
  rw [(references h₀ hr).1 ⟨theirs, 0⟩, hdeeds]
  rfl

end Machine

end ResourceHost
