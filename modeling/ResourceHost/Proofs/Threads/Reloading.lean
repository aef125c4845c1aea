import ResourceHost.Proofs.Cache.Reloads
import ResourceHost.Proofs.Threads.Objects

/-!
# Reloads while others are at work

Whatever other threads are amid, loads of the same resource among it: a reload
finds its resource missing or loading, and touches nothing, or finds it loaded,
and then it is all or nothing.  What readers were given before is not touched
either way.
-/

namespace ResourceHost.Machine

variable {α : Type} {conduct : Conduct} {m₀ m : Machine α} {es : List Event}
  {h : Handle}

/-- A handle whose slot nobody has locked is loading, or ready. -/
theorem Inv.fresh_or_ready (hinv : m.Inv conduct)
    (hfree : ∀ s, m.cache.find? h = some s → m.free.slot s = true) :
    (∃ s, m.cache.find? h = some s ∧ m.cache.Made s ∧
      m.cache.entry s = Entry.fresh ∧
      m.cache.Registered h.type) ∨ m.cache.Ready h := by
  cases hs : m.cache.find? h with
  | none =>
    refine .inr ⟨fun s hs' => ?_, fun e hl => ?_⟩
    · rw [hs] at hs'
      cases hs'
    · rw [Cache.lookup?_of_find? hs] at hl
      cases hl
  | some s =>
    obtain ⟨rfl, hl⟩ := Cache.find?_eq_some_iff.1 hs
    have hm := hinv.orderly.made s hl
    have hreg := hinv.orderly.typed s hm
    cases hinv.settled s (hfree s hs) with
    | loading _ he => exact .inl ⟨s, rfl, hm, he, hreg⟩
    | loaded _ hd =>
      refine .inr ⟨fun s' hs' => ?_, fun e he => ⟨?_, hreg⟩⟩
      · cases hs.symm.trans hs'
        exact hm
      · cases (Cache.lookup?_of_made hs hm).symm.trans he
        exact hd
    | gone hn _ => exact absurd hl hn

/-- What was given earlier is met again as it was, also after a reload. -/
theorem Outlives.eq_of_run_get {r x : Representation} (hr : m.Outlives r)
    (hm : Course conduct m₀ es m) (h₀ : m₀.Starts conduct) {h' : Handle}
    {bytes : List UInt8}
    (hx : ((Cache.get h').run ((Cache.reload h bytes).run m.cache).2).1 = .ok x)
    (hobj : x.object = r.object) : x = r := by
  obtain ⟨s, -, -, hheld⟩ := Cache.exists_of_run_get hx
  rcases m.cache.held_run_reload h bytes s with
    hsame | ⟨old, content, hold, hnew⟩
  · rw [hsame] at hheld
    exact hr.eq_of_object hheld (hm.slot_of_held h₀ hheld) hobj
  · cases hnew.symm.trans hheld
    exact absurd hobj (hr.nextObject_ne hold (hm.slot_of_held h₀ hold) content)

/-- A reload is all or nothing.  A resource that is missing or loading is not
touched, and no callback runs.  One that is loaded is left as it is if its kind
refuses the bytes: the cache differs in the callbacks that were made, which end
where the entry was.  If not, its entry comes online with a new object and as
many references, and no other slot changes.  And whatever anybody was given at
an earlier moment is afterwards what it was. -/
theorem reload_all_or_nothing (h₀ : m₀.Starts conduct)
    (hr : Course conduct m₀ es m)
    (hfree : ∀ s, m.cache.find? h = some s → m.free.slot s = true)
    (bytes : List UInt8) :
    ((∀ e, m.cache.lookup? h = some e → e.state = .loading) →
      (Cache.reload h bytes).run m.cache = (.error (.notLoaded h), m.cache)) ∧
    (∀ e, m.cache.lookup? h = some e → e.state ≠ .loading →
      ∃ old k, e.held = some old ∧ (e.state = .online ∨ e.state = .offline) ∧
        m.cache.kind? h.type = some k ∧
        (∀ f, k.reload h old.content bytes = .error f →
          (Cache.reload h bytes).run m.cache =
            (.error (.reload h f),
              m.cache.record (e.reloadCalls k h old bytes (.error f)))) ∧
        ∀ content, k.reload h old.content bytes = .ok content →
          ∃ c', (Cache.reload h bytes).run m.cache = (.ok (), c') ∧
            m.cache.Swaps h (some (e.holding (Entry.nextObject old content)))
              (e.reloadCalls k h old bytes (.ok (Entry.nextObject old content)))
                c') ∧
    ∀ (es₁ es₂ : List Event) (m₁ : Machine α) (x : Handle) (r : Representation),
      Course conduct m₀ es₁ m₁ → Course conduct m₁ es₂ m →
      (∀ s, m₁.cache.find? x = some s → m₁.free.slot s = true) →
      ((Cache.get x).run m₁.cache).1 = .ok r →
      ∀ x' r',
        ((Cache.get x').run ((Cache.reload h bytes).run m.cache).2).1 = .ok r' →
        r'.object = r.object → r' = r := by
  have hstands := (hr.inv h₀).fresh_or_ready hfree
  refine ⟨fun hload => ?_, fun e he hnl => ?_, ?_⟩
  · rcases hstands with ⟨s, hs, hm, he, hreg⟩ | hready
    · obtain ⟨k, hk⟩ := Option.isSome_iff_exists.1 hreg
      exact Cache.run_reload_of_fresh hs hm he hk bytes
    · cases hl : m.cache.lookup? h with
      | none => exact Cache.run_reload_of_none (hready.find?_eq_none hl) bytes
      | some e =>
        rcases (hready.loaded e hl).1.state with h' | h' <;>
          cases (hload e hl).symm.trans h'
  · rcases hstands with ⟨s, hs, hm, hfresh, -⟩ | hready
    · cases (Cache.lookup?_of_made hs hm).symm.trans he
      exact absurd (by rw [hfresh]; rfl) hnl
    · have hstate := (hready.loaded e he).1.state
      obtain ⟨old, k, hold, hk, -⟩ := hready.exists_held? he
      exact ⟨old, k, hold, hstate, hk,
        fun f hf => hready.run_reload_of_error he hold hk hf,
        fun content hc => hready.run_reload_of_ok he hold hk hc⟩
  · intro es₁ es₂ m₁ x r hm₁ hm₂ hfree₁ hx x' r' hx' hobj
    obtain ⟨s, hs, -, hheld⟩ := Cache.exists_of_run_get hx
    have houtlives :=
      (hm₁.outlives_of_held h₀ (hfree₁ s hs) hheld).course (hm₁.inv h₀) hm₂
    exact houtlives.eq_of_run_get hr h₀ hx' hobj

/-- A kind that takes any bytes at first, and in place of others none that are
empty. -/
def nonEmptyKind : Kind where
  identity := 3
  load _ bytes := .ok (.bytes bytes)
  reload _ _ bytes :=
    if bytes = [] then .error (.told "empty") else .ok (.bytes bytes)

/-- A caller who loads what is theirs, of such a kind. -/
def nonEmptyCaller : Machine (Except Failure Unit) where
  cache :=
    { kinds := Table.empty.put theirs.type nonEmptyKind
      source := .memory (Table.empty.put theirs [7]) }
  threads := [Thread.ofProgram loader]

theorem starts_nonEmptyCaller :
    nonEmptyCaller.Starts fun _ k => k = nonEmptyKind := by
  have hp : ∀ p ∈ [loader], p.Honest (fun _ k => k = nonEmptyKind) {} := by
    intro p hp
    rw [List.mem_singleton.1 hp]
    exact Cache.load_honest _ _
  exact starts_of_kinds (acts_put nofun rfl) hp

/-- What is theirs has been loaded: empty bytes are refused and leave it as it
is, others take its place, and what was given before is not what is given
then. -/
theorem reload_all_or_nothing_of_nonEmptyCaller :
    let first : Representation := ⟨⟨⟨theirs, 0⟩, 0⟩, .bytes [7]⟩
    let second : Representation := ⟨⟨⟨theirs, 0⟩, 1⟩, .bytes [8]⟩
    nonEmptyCaller.Starts (fun _ k => k = nonEmptyKind) ∧
      ∃ (es : List Event) (m : Machine (Except Failure Unit)) (c : Cache),
        Course (fun _ k => k = nonEmptyKind) nonEmptyCaller es m ∧
          m.free.slot ⟨theirs, 0⟩ = true ∧
          m.cache.lookup? theirs =
            some { state := .online, held := some first, refCount := 1 } ∧
          (Cache.reload theirs []).run m.cache =
            (.error (.reload theirs (.told "empty")),
              m.cache.record [.offline nonEmptyKind theirs first,
                .reload nonEmptyKind theirs first [] (.error (.told "empty")),
                .online nonEmptyKind theirs first]) ∧
          (Cache.reload theirs [8]).run m.cache = (.ok (), c) ∧
          c.lookup? theirs =
            some { state := .online, held := some second, refCount := 1 } := by
  intro first second
  have hf : ∃ (es : List Event) (m : Machine (Except Failure Unit)),
      nonEmptyCaller.follow (List.replicate 11 0) = some (es, m) ∧
        m.cache.find? theirs = some ⟨theirs, 0⟩ ∧
        m.free.slot ⟨theirs, 0⟩ = true ∧
        m.cache.lookup? theirs =
          some { state := .online, held := some first, refCount := 1 } ∧
        m.cache.kind? theirs.type = some nonEmptyKind :=
    ⟨_, _, rfl, rfl, rfl, rfl, rfl⟩
  obtain ⟨es, m, hfollow, hfind, hslot, hlookup, hkind⟩ := hf
  have hr : Course (fun _ k => k = nonEmptyKind) nonEmptyCaller es m :=
    course_of_follow hfollow
  have hfree : ∀ s, m.cache.find? theirs = some s → m.free.slot s = true := by
    intro s hs
    cases hfind.symm.trans hs
    exact hslot
  -- The one that is loaded, with bytes that are refused and with bytes that are
  -- not.
  have hloaded := fun bytes =>
    (reload_all_or_nothing starts_nonEmptyCaller hr hfree bytes).2.1 _
      hlookup nofun
  obtain ⟨old, k, hold, -, hk, hrefused, -⟩ := hloaded []
  cases hold
  cases hkind.symm.trans hk
  obtain ⟨old, k, hold, -, hk, -, hrenewed⟩ := hloaded [8]
  cases hold
  cases hkind.symm.trans hk
  obtain ⟨c, hrun, hswaps⟩ := hrenewed (.bytes [8]) rfl
  exact ⟨starts_nonEmptyCaller, es, m, c, hr, hslot, hlookup, hrefused _ rfl,
    hrun, hswaps.lookup?⟩

end ResourceHost.Machine
