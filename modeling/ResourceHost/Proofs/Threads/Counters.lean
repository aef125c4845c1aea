import ResourceHost.Cache.Tally
import ResourceHost.Proofs.Threads.Progress
import ResourceHost.Proofs.Threads.Stories

/-!
# The counter of resources online

A kind that counts up whenever a resource of its comes online, and down whenever
one goes offline, counts how many handles of its type are up.  The callbacks of
a handle alternate, whatever the operations and however they interleave, so that
the counter is never taken below zero; and while nobody is amid a request about
a handle of the type, the handles that are up are those of which callers are
told that they are online.
-/

namespace ResourceHost

/-! ### What is up -/

namespace OnlineCount

/-- The handles that have come online and not gone offline since, by a log with
the latest callback first. -/
def up : List Callback → List Handle
  | [] => []
  | .online _ h _ :: log => h :: up log
  | .offline _ h _ :: log => (up log).erase h
  | _ :: log => up log

/-- Comes online only while down, and goes offline only while up. -/
def Alternates (up : List Handle) : Callback → Prop
  | .online _ h _ => h ∉ up
  | .offline _ h _ => h ∈ up
  | _ => True

/-- So does every callback of a log. -/
def Alternating (log : List Callback) : Prop :=
  ∀ newer cb older, log = newer ++ cb :: older → Alternates (up older) cb

variable {log : List Callback} {cb : Callback} {t : TypeId} {h : Handle}

theorem alternating_nil : Alternating [] := by
  rintro (_ | ⟨cb, newer⟩) cb older hsplit <;> cases hsplit

theorem alternating_cons :
    Alternating (cb :: log) ↔ Alternates (up log) cb ∧ Alternating log := by
  constructor
  · intro hall
    refine ⟨hall [] cb log rfl, ?_⟩
    rintro newer cb' older rfl
    exact hall (cb :: newer) cb' older rfl
  · rintro ⟨hcb, hlog⟩ (_ | ⟨cb', newer⟩) cb'' older hsplit
    · cases hsplit
      exact hcb
    · exact hlog newer cb'' older (List.cons.inj hsplit).2

theorem nodup_up (hlog : Alternating log) : (up log).Nodup := by
  induction log with
  | nil => exact List.nodup_nil
  | cons cb log ih =>
    obtain ⟨hcb, hrest⟩ := alternating_cons.1 hlog
    cases cb with
    | online k h x => exact List.nodup_cons.2 ⟨hcb, ih hrest⟩
    | offline k h x => exact (ih hrest).erase h
    | load k h bytes outcome => exact ih hrest
    | reload k h old bytes outcome => exact ih hrest
    | unload k h x => exact ih hrest

/-- Callbacks about another handle leave a handle where it is. -/
theorem mem_up_cons_of_ne (hne : cb.handle ≠ h) :
    h ∈ up (cb :: log) ↔ h ∈ up log := by
  cases cb with
  | online k h' x =>
    have hne' : h ≠ h' := Ne.symm hne
    simp [up, hne']
  | offline k h' x => exact List.mem_erase_of_ne (Ne.symm hne)
  | load k h' bytes outcome => exact Iff.rfl
  | reload k h' old bytes outcome => exact Iff.rfl
  | unload k h' x => exact Iff.rfl

theorem ofType_cons (t : TypeId) (cb : Callback) (log : List Callback) :
    ofType t (cb :: log) =
      if cb.handle.type = t then step (ofType t log) cb else ofType t log := by
  by_cases ht : cb.handle.type = t <;> simp [ofType, Callback.isFor, ht]

/-- The counter of a type is the number of its handles that are up. -/
theorem ofType_eq (hlog : Alternating log) (t : TypeId) :
    ofType t log = (up log).countP fun h => h.type = t := by
  induction log with
  | nil => rfl
  | cons cb log ih =>
    obtain ⟨hcb, hrest⟩ := alternating_cons.1 hlog
    rw [ofType_cons, ih hrest]
    cases cb with
    | online k h x =>
      by_cases ht : h.type = t <;> simp [up, step, Callback.handle, ht]
    | offline k h x =>
      have hperm := (List.perm_cons_erase (show h ∈ up log from hcb)).countP_eq
        fun h => decide (h.type = t)
      by_cases ht : h.type = t <;> simp [up, step, Callback.handle, hperm, ht]
    | load k h bytes outcome => simp [up, step]
    | reload k h old bytes outcome => simp [up, step]
    | unload k h x => simp [up, step]

end OnlineCount

namespace Standing

open OnlineCount

variable {h : Handle} {st st' : Standing} {cb : Callback} {log : List Callback}

/-- Has come online and not gone offline since. -/
def Up : Standing → Prop
  | .on _ => True
  | _ => False

/-- A callback leads on from where its handle stands as the record has it. -/
theorem Step.alternates (hs : Step h st (.called cb) st')
    (hup : h ∈ up log ↔ st.Up) : Alternates (up log) cb := by
  cases hs with
  | arrive => exact fun hmem => hup.1 hmem
  | online => exact fun hmem => hup.1 hmem
  | offline => exact hup.2 trivial
  | _ => trivial

theorem Step.mem_up (hs : Step h st (.called cb) st') (hup : h ∈ up log ↔ st.Up)
    (hlog : Alternating log) : h ∈ up (cb :: log) ↔ st'.Up := by
  cases hs with
  | arrive => exact iff_of_true List.mem_cons_self trivial
  | online => exact iff_of_true List.mem_cons_self trivial
  | offline => exact iff_of_false (nodup_up hlog).not_mem_erase id
  | _ => exact hup

end Standing

/-- The callback that befalls a handle. -/
def Happening.callback? : Happening → Option Callback
  | .called cb => some cb
  | .brought _ => none

/-- The callback that a move begins is what befalls a handle by the move. -/
theorem Moves.callback?_eq {conduct : Conduct} {r : Request} {free : Free}
    {c : Cache} {p : Point r} {mv : Move r} (hmv : Moves free c p mv)
    (hp : p.Sound conduct c) :
    mv.callback? = (mv.happening? p c).bind Happening.callback? := by
  rw [Move.happening?]
  cases hb : p.brings? c with
  | some x =>
    rw [hmv.callback?_of_brings? hp (by simp [hb])]
    rfl
  | none => cases mv.callback? <;> rfl

namespace Standing

open OnlineCount

variable {h : Handle} {st st' : Standing} {x : Happening} {log : List Callback}

/-- What befalls a handle that stands as the record has it leads to where the
longer record has it. -/
theorem Path.mem_up
    (hp : Path h st ((some x).filter fun x => x.handle = h).toList st')
    (hup : h ∈ up log ↔ st.Up) (hlog : Alternating log) :
    h ∈ up (x.callback?.toList ++ log) ↔ st'.Up := by
  by_cases hx : x.handle = h
  · rw [Option.filter, if_pos (decide_eq_true hx)] at hp
    cases hp with
    | cons hs hnil =>
      cases hnil
      cases x with
      | called cb => exact hs.mem_up hup hlog
      | brought y =>
        cases hs
        exact hup
  · rw [Option.filter, if_neg (by simpa using hx)] at hp
    cases hp
    cases x with
    | called cb => exact (mem_up_cons_of_ne hx).trans hup
    | brought y => exact hup

theorem Path.alternating
    (hp : Path x.handle st
      ((some x).filter fun y => y.handle = x.handle).toList st')
    (hup : x.handle ∈ up log ↔ st.Up) (hlog : Alternating log) :
    Alternating (x.callback?.toList ++ log) := by
  rw [Option.filter, if_pos (decide_eq_true rfl)] at hp
  cases hp with
  | cons hs hnil =>
    cases x with
    | called cb => exact alternating_cons.2 ⟨hs.alternates hup, hlog⟩
    | brought y => exact hlog

end Standing

namespace Machine

open OnlineCount

variable {α : Type} {conduct : Conduct} {m₀ m m' : Machine α} {es : List Event}

/-- The log tells which handles are up: those that stand online. -/
structure Tallied (m : Machine α) : Prop where
  alternating : Alternating m.cache.log
  stands : ∀ h, ∃ st, m.Stands h st ∧ (h ∈ up m.cache.log ↔ st.Up)

theorem Starts.tallied (h₀ : m₀.Starts conduct) : m₀.Tallied := by
  refine ⟨?_, fun h => ⟨.absent, h₀.stands h, ?_⟩⟩ <;> rw [h₀.log]
  · exact alternating_nil
  · exact iff_of_false (List.not_mem_nil) id

theorem Tallied.step (ht : m.Tallied) (hinv : m.Inv conduct) {i : Nat}
    (hs : m.step i = some m') : m'.Tallied := by
  obtain ⟨r, p, next, mv, hi, hmv, hev, hm'⟩ := step_cases hs
  have hlog : m'.cache.log =
      ((mv.happening? p m.cache).bind Happening.callback?).toList ++
        m.cache.log := by
    rw [hm', ← hmv.callback?_eq (hinv.sound i _ hi).1]
    exact hmv.log_cacheAfter
  have hstands : ∀ h, ∃ st st', (h ∈ up m.cache.log ↔ st.Up) ∧ m'.Stands h st' ∧
      Standing.Path h st
        ((mv.happening? p m.cache).filter fun x => x.handle = h).toList
        st' := by
    intro h
    obtain ⟨st, hst, hup⟩ := ht.stands h
    obtain ⟨st', hpath, hst'⟩ := hinv.stands_step hst hs
    rw [hev, Event.history_events] at hpath
    exact ⟨st, st', hup, hst', hpath⟩
  cases hx : mv.happening? p m.cache with
  | none =>
    rw [hx] at hlog hstands
    refine ⟨?_, fun h => ?_⟩ <;> rw [hlog]
    · exact ht.alternating
    · obtain ⟨st, st', hup, hst', hpath⟩ := hstands h
      cases hpath
      exact ⟨st, hst', hup⟩
  | some x =>
    rw [hx] at hlog hstands
    refine ⟨?_, fun h => ?_⟩ <;> rw [hlog]
    · -- The handle that is befallen tells whether the callback alternates.
      obtain ⟨st, st', hup, -, hpath⟩ := hstands x.handle
      exact hpath.alternating hup ht.alternating
    · obtain ⟨st, st', hup, hst', hpath⟩ := hstands h
      exact ⟨st', hst', hpath.mem_up hup ht.alternating⟩

theorem Tallied.of_stands (ht : m.Tallied) (hlog : m'.cache.log = m.cache.log)
    (hst : ∀ h st, m.Stands h st → m'.Stands h st) : m'.Tallied := by
  refine ⟨?_, fun h => ?_⟩ <;> rw [hlog]
  · exact ht.alternating
  · obtain ⟨st, hstands, hup⟩ := ht.stands h
    exact ⟨st, hst h st hstands, hup⟩

theorem Course.tallied (hr : Course conduct m₀ es m) (h₀ : m₀.Starts conduct) :
    m.Tallied := by
  induction hr with
  | refl => exact h₀.tallied
  | step hr hs ih => exact ih.step (hr.inv h₀) hs
  | drift hr hc ih => exact ih.of_stands hc.log fun h st hst => hst.drift hc
  | stir hr i ih => exact ih.of_stands rfl fun h st hst => hst.stir i

/-- A handle that nobody is amid a request about stands online where callers are
told that it is. -/
theorem Stands.up_iff {h : Handle} {st : Standing} (hst : m.Stands h st)
    (hinv : m.Inv conduct)
    (hquiet : ∀ (i : Nat) (t : Thread α), m.threads[i]? = some t →
      t.amid? ≠ some h) :
    st.Up ↔ ((Cache.state h).run m.cache).1 = .online := by
  rcases hst.quiet_cases hinv hquiet with ⟨hf, rfl⟩ | ⟨s, rfl, hl, hd, rfl⟩
  · rw [(Cache.shows_absent hf).absent.1 rfl]
    exact iff_of_false id nofun
  · have hshows := Cache.shows_of_loaded hl (hinv.orderly.made s hl) hd
    obtain ⟨x, -, ⟨-, hstands⟩ | ⟨-, hstands⟩⟩ := hd.standing_cases
    · rw [((hshows.on x).1 hstands).1, hstands]
      exact iff_of_true trivial rfl
    · rw [((hshows.off x).1 hstands).1, hstands]
      exact iff_of_false id nofun

/-- However operations interleave, and whatever the source and the kinds give:
the counter that the kind of a type keeps of its callbacks is never taken below
zero.  While nobody is amid a request about a handle of the type, it is the
number of the handles of the type of which callers are told that they are
online. -/
theorem counter_exact (h₀ : m₀.Starts conduct) (hr : Course conduct m₀ es m)
    (t : TypeId) :
    (∀ newer k h x older, m.cache.log = newer ++ .offline k h x :: older →
      h.type = t →
      0 < OnlineCount.ofType t older) ∧
    ((∀ (i : Nat) (thread : Thread α), m.threads[i]? = some thread →
        ∀ h, thread.amid? = some h → h.type ≠ t) →
      ∃ hs : List Handle, hs.Nodup ∧
        (∀ h, h ∈ hs ↔ h.type = t ∧ ((Cache.state h).run m.cache).1 = .online) ∧
        OnlineCount.ofType t m.cache.log = hs.length) := by
  have htallied := hr.tallied h₀
  refine ⟨fun newer k h x older hsplit ht => ?_, fun hquiet => ?_⟩
  · have hup : h ∈ up older := htallied.alternating newer _ older hsplit
    have holder : Alternating older := by
      intro newer' cb older' hsplit'
      refine htallied.alternating (newer ++ .offline k h x :: newer') cb
        older' ?_
      rw [hsplit, hsplit', List.append_assoc]
      rfl
    rw [ofType_eq holder]
    exact List.countP_pos_iff.2 ⟨h, hup, decide_eq_true ht⟩
  · refine ⟨(up m.cache.log).filter fun h => h.type = t, ?_, fun h => ?_, ?_⟩
    · exact (nodup_up htallied.alternating).filter _
    · rw [List.mem_filter, decide_eq_true_eq, and_comm]
      refine and_congr_right fun ht => ?_
      obtain ⟨st, hst, hup⟩ := htallied.stands h
      rw [hup]
      exact hst.up_iff (hr.inv h₀) fun i thread hi hamid =>
        hquiet i thread hi h hamid ht
    · rw [ofType_eq htallied.alternating, List.countP_eq_length_filter]

/-- Another handle of their type. -/
def spare : Handle := ⟨theirs.type, ⟨2⟩⟩

/-- Loads what is theirs and brings a spare; then replaces the one and takes the
other offline. -/
def swapper : Program (Except Failure Unit) :=
  loader.orStop fun _ =>
    (Cache.addLoaded spare (.bytes [1])).orStop fun _ =>
      (Cache.reload theirs [8]).orStop fun _ => Cache.offline spare

theorem starts_swapper : (callers [swapper]).Starts rawConduct := by
  refine starts_callers fun p hp => ?_
  rw [List.mem_singleton.1 hp]
  exact (Cache.load_honest _ _).orStop fun _ _ =>
    (Cache.addLoaded_honest _ _).orStop fun _ _ =>
    (Cache.reload_honest _ _).orStop fun _ _ => Cache.offline_honest _

/-- The handle that a callback takes offline. -/
def lowered? : Callback → Option Handle
  | .offline _ h _ => some h
  | _ => none

/-- Of two resources the spare one goes offline last, when the counter is above
zero, and the other is left to be counted. -/
theorem counter_exact_of_swapper :
    (callers [swapper]).Starts rawConduct ∧
      ∃ (es : List Event) (m : Machine (Except Failure Unit)) (k : Kind)
        (x : Representation) (older : List Callback),
        Course rawConduct (callers [swapper]) es m ∧
          m.cache.log = .offline k spare x :: older ∧
          0 < OnlineCount.ofType theirs.type older ∧
          ((Cache.state theirs).run m.cache).1 = .online ∧
          ((Cache.state spare).run m.cache).1 = .offline ∧
          ∃ hs : List Handle,
            OnlineCount.ofType theirs.type m.cache.log = hs.length ∧
            theirs ∈ hs ∧ spare ∉ hs := by
  have hrun := exists_course rawConduct (callers [swapper])
    (List.replicate 40 0)
    (P := fun _ m => m.cache.log.head?.bind lowered? = some spare ∧
      ((Cache.state theirs).run m.cache).1 = .online ∧
      ((Cache.state spare).run m.cache).1 = .offline ∧
      ∀ t ∈ m.threads, t.amid? = none)
    (by decide +kernel)
  obtain ⟨es, m, hrun, hend⟩ := hrun
  obtain ⟨hlast, honline, hoffline, hquiet⟩ := of_decide_eq_true hend
  obtain ⟨k, x, older, hlog⟩ : ∃ k x older,
      m.cache.log = .offline k spare x :: older := by
    obtain ⟨cb, hcb, hlowered⟩ := Option.bind_eq_some_iff.1 hlast
    obtain ⟨older, hlog⟩ := List.head?_eq_some_iff.1 hcb
    cases cb <;> cases hlowered
    exact ⟨_, _, older, hlog⟩
  obtain ⟨habove, hcounts⟩ := counter_exact starts_swapper hrun theirs.type
  obtain ⟨hs, -, hmem, hcount⟩ := hcounts fun i thread hi h hamid => by
    rw [hquiet thread (List.mem_of_getElem? hi)] at hamid
    cases hamid
  refine ⟨starts_swapper, es, m, k, x, older, hrun, hlog,
    habove [] k spare x older hlog rfl, honline, hoffline, hs, hcount,
    (hmem theirs).2 ⟨rfl, honline⟩, fun hspare => ?_⟩
  have hwrong := ((hmem spare).1 hspare).2
  rw [hoffline] at hwrong
  cases hwrong

end Machine

end ResourceHost
