import ResourceHost.Proofs.Threads.Effects

/-!
# What a kind sees of a handle

To its kind a handle is absent, online with some object or offline with it, and
every callback leads from one of these standings to another.  The callbacks of a
section lead from the standing of the entry that it found to that of the entry
that it leaves.
-/

namespace ResourceHost

/-- Where a handle stands, as its kind sees it. -/
inductive Standing where
  | absent
  /-- Has been loaded or brought, or has replaced the old one, and is about to
  come online. -/
  | coming (x : Representation)
  | on (x : Representation)
  | off (x : Representation)

/-- What befalls a handle makes of its standing, whichever kind it is that is
called. -/
inductive Standing.Step (h : Handle) :
    Standing → Happening → Standing → Prop where
  | load {k : Kind} {bytes : List UInt8} {x : Representation} :
      Step h .absent (.called (.load k h bytes (.ok x))) (.coming x)
  | fail {k : Kind} {bytes : List UInt8} {f : Failure} :
      Step h .absent (.called (.load k h bytes (.error f))) .absent
  | bring {x : Representation} (hx : x.object.slot.handle = h) :
      Step h .absent (.brought x) (.coming x)
  | arrive {k : Kind} {x : Representation} :
      Step h (.coming x) (.called (.online k h x)) (.on x)
  | offline {k : Kind} {x : Representation} :
      Step h (.on x) (.called (.offline k h x)) (.off x)
  | online {k : Kind} {x : Representation} :
      Step h (.off x) (.called (.online k h x)) (.on x)
  | replace {k : Kind} {x new : Representation} {bytes : List UInt8} :
      Step h (.off x) (.called (.reload k h x bytes (.ok new))) (.coming new)
  | keep {k : Kind} {x : Representation} {bytes : List UInt8} {f : Failure} :
      Step h (.off x) (.called (.reload k h x bytes (.error f))) (.off x)
  | unload {k : Kind} {x : Representation} :
      Step h (.off x) (.called (.unload k h x)) .absent

/-- What befalls a handle, one after another, leads from one standing to
another. -/
inductive Standing.Path (h : Handle) :
    Standing → List Happening → Standing → Prop where
  | refl {st : Standing} : Path h st [] st
  | cons {st st' st'' : Standing} {x : Happening} {xs : List Happening}
      (hs : Step h st x st') (hp : Path h st' xs st'') :
      Path h st (x :: xs) st''

namespace Standing

variable {h : Handle} {a b c : Standing} {xs ys : List Happening}
  {x : Happening}

theorem Path.trans (hp : Path h a xs b) (hp' : Path h b ys c) :
    Path h a (xs ++ ys) c := by
  induction hp with
  | refl => exact hp'
  | cons hs _ ih => exact .cons hs (ih hp')

theorem Path.single (hs : Step h a x b) : Path h a [x] b := .cons hs .refl

/-- A standing and what befalls the handle leave one standing only. -/
theorem Step.unique (hs : Step h a x b) (hs' : Step h a x c) : b = c := by
  cases hs <;> cases hs' <;> rfl

theorem Path.unique (hp : Path h a xs b) (hp' : Path h a xs c) : b = c := by
  induction hp with
  | refl =>
    cases hp'
    rfl
  | cons hs _ ih =>
    cases hp' with
    | cons hs' hp' =>
      obtain rfl := hs.unique hs'
      exact ih hp'

theorem Step.handle_eq (hs : Step h a x b) : x.handle = h := by
  cases hs with
  | bring hx => exact hx
  | _ => rfl

theorem Path.handle_eq (hp : Path h a xs b) : ∀ x ∈ xs, x.handle = h := by
  induction hp with
  | refl => exact nofun
  | cons hs _ ih =>
    intro x hx
    rcases List.mem_cons.1 hx with rfl | hx
    · exact hs.handle_eq
    · exact ih x hx

end Standing

/-- The standing that an entry stands for. -/
def Entry.standing (e : Entry) : Standing :=
  match e.state, e.held with
  | .online, some x => .on x
  | .offline, some x => .off x
  | _, _ => .absent

/-- The standing that an errand finds its slot in.  What was loaded or brought
for the slot is about to come online. -/
def Errand.standing {r : Request} (s : SlotId) : Errand r → Entry → Standing
  | .settle (.ok x), _ => .coming x
  | .introduce (c := content), _ => .coming (Entry.firstObject s content)
  | _, e => e.standing

theorem Errand.standing_of_not_owns {r : Request} {errand : Errand r}
    (ho : errand.owns = false) (s : SlotId) (e : Entry) :
    errand.standing s e = e.standing := by
  cases errand with
  | settle outcome => cases ho
  | introduce => cases ho
  | _ => rfl

theorem Entry.Gone.standing {e : Entry} (he : e.Gone) :
    e.standing = .absent := by
  rw [Entry.standing, he.state]

theorem Entry.standing_online {e : Entry} {x : Representation}
    (hs : e.state = .online) (hx : e.held = some x) : e.standing = .on x := by
  rw [Entry.standing, hs, hx]

theorem Entry.standing_offline {e : Entry} {x : Representation}
    (hs : e.state = .offline) (hx : e.held = some x) : e.standing = .off x := by
  rw [Entry.standing, hs, hx]

/-- A loaded entry is online or offline with what it holds. -/
theorem Entry.Loaded.standing_cases {e : Entry} (he : e.Loaded) :
    ∃ x, e.held = some x ∧
      (e.state = .online ∧ e.standing = .on x ∨
        e.state = .offline ∧ e.standing = .off x) := by
  obtain ⟨x, hx⟩ := Option.isSome_iff_exists.1 he.held
  rcases he.state with hs | hs
  · exact ⟨x, hx, .inl ⟨hs, Entry.standing_online hs hx⟩⟩
  · exact ⟨x, hx, .inr ⟨hs, Entry.standing_offline hs hx⟩⟩

/-! ### The callbacks of a section -/

/-- What befalls a handle by a callback. -/
def Call.happening (call : Call) : Happening := .called call.callback

/-- What befalls a handle by a section, in its order. -/
def Section.happenings {α : Type} (sec : Section α) : List Happening :=
  sec.calls.map Call.happening

namespace Entry.Loaded

variable {h : Handle} {e : Entry}

theorem path_takeOffline (he : e.Loaded) (kind? : Option Kind) :
    Standing.Path h e.standing (e.takeOffline h kind?).happenings
      (e.takeOffline h kind?).entry.standing := by
  obtain ⟨x, hx, ⟨hs, hst⟩ | ⟨hs, hst⟩⟩ := he.standing_cases
  · cases kind? with
    | none =>
      simp only [takeOffline, hs]
      exact .refl
    | some k =>
      rw [hst]
      simp only [takeOffline, hs, callHeld, hx, Section.happenings,
        List.map_cons, List.map_nil]
      exact .single .offline
  · simp only [takeOffline, hs]
    exact .refl

theorem path_bringOnline (he : e.Loaded) (kind? : Option Kind) :
    Standing.Path h e.standing (e.bringOnline h kind?).happenings
      (e.bringOnline h kind?).entry.standing := by
  obtain ⟨x, hx, ⟨hs, hst⟩ | ⟨hs, hst⟩⟩ := he.standing_cases
  · simp only [bringOnline, hs]
    exact .refl
  · cases kind? with
    | none =>
      simp only [bringOnline, hs]
      exact .refl
    | some k =>
      rw [hst]
      simp only [bringOnline, hs, callHeld, hx, Section.happenings,
        List.map_cons, List.map_nil]
      exact .single .online

theorem path_reload (he : e.Loaded) (kind? : Option Kind) (bytes : List UInt8) :
    Standing.Path h e.standing (e.reload h kind? bytes).happenings
      (e.reload h kind? bytes).entry.standing := by
  cases kind? with
  | none => exact .refl
  | some k =>
    obtain ⟨x, hx, ⟨hs, hst⟩ | ⟨hs, hst⟩⟩ := he.standing_cases
    · -- Online: down, and up again with the new object or with the old one.
      simp only [reload, hs, hx, replace]
      cases k.reload h x.content bytes with
      | ok content =>
        rw [hst]
        simp only [decide_true, if_true, Section.happenings, List.map_append,
          List.map_cons, List.map_nil]
        exact .cons .offline (.cons .replace (.single .arrive))
      | error f =>
        simp only [decide_true, if_true, Section.happenings, List.map_append,
          List.map_cons, List.map_nil, hst]
        exact .cons .offline (.cons .keep (.single .online))
    · simp only [reload, hs, hx, replace]
      cases k.reload h x.content bytes with
      | ok content =>
        rw [hst]
        simp only [Section.happenings]
        exact .cons .replace (.single .arrive)
      | error f =>
        simp only [Section.happenings, hst]
        exact .single .keep

theorem path_unload (he : e.Loaded) (kind? : Option Kind) :
    Standing.Path h e.standing (e.unload h kind?).happenings
      (e.unload h kind?).entry.standing := by
  cases kind? with
  | none => exact .refl
  | some k =>
    obtain ⟨x, hx, ⟨hs, hst⟩ | ⟨hs, hst⟩⟩ := he.standing_cases
    · rw [hst]
      simp only [unload, hs, callHeld, hx, if_true, Section.happenings,
        List.map_append, List.map_cons, List.map_nil]
      exact .cons .offline (.single .unload)
    · rw [hst]
      simp only [unload, hs, callHeld, hx, Section.happenings]
      exact .single .unload

theorem path_inside (he : e.Loaded) (v : Visit) (kind? : Option Kind) :
    Standing.Path h e.standing (v.inside h kind? e).happenings
      (v.inside h kind? e).entry.standing := by
  cases v with
  | get => exact .refl
  | state => exact .refl
  | refCount => exact .refl
  | release => exact .refl
  | offline => exact he.path_takeOffline kind?
  | online => exact he.path_bringOnline kind?
  | reload bytes => exact he.path_reload kind? bytes
  | unload => exact he.path_unload kind?

end Entry.Loaded

namespace Errand

variable {conduct : Conduct} {r : Request} {errand : Errand r} {s : SlotId}
  {e : Entry} {sec : Section r.Reply} {h : Handle} {listed : Prop}

theorem path_of_owns (ho : errand.owns = true) (hr : r.handle? = some h)
    (hs : errand.section? s Entry.fresh = some sec) :
    Standing.Path h (errand.standing s Entry.fresh) sec.happenings
      sec.entry.standing := by
  cases errand with
  | settle outcome =>
    cases hr
    cases outcome with
    | ok x =>
      cases hs
      exact .single .arrive
    | error f =>
      cases hs
      exact .refl
  | introduce =>
    cases hr
    cases hs
    exact .single .arrive
  | _ => cases ho

theorem path_of_loaded (ho : errand.owns = false) (he : e.Loaded)
    (hr : r.handle? = some h) (hs : errand.section? s e = some sec) :
    Standing.Path h (errand.standing s e) sec.happenings
      sec.entry.standing := by
  cases errand with
  | settle outcome => cases ho
  | introduce => cases ho
  | join =>
    have hsec :
        sec = { entry := { e with refCount := e.refCount + 1 }
                answer := .ok () } := by
      rcases he.state with h | h <;>
        simpa [section?, Entry.join?, h] using hs.symm
    subst hsec
    exact .refl
  | visit kind? =>
    cases hr
    cases hs
    exact he.path_inside _ kind?
  | look =>
    cases hs
    exact .refl

/-- The callbacks of a section lead from the standing that its errand found to
the standing of the entry that it leaves. -/
theorem path (he : e.Settled listed) (ho : errand.owns = true → e = Entry.fresh)
    (hr : r.handle? = some h) (hs : errand.section? s e = some sec) :
    Standing.Path h (errand.standing s e) sec.happenings
      sec.entry.standing := by
  cases howns : errand.owns with
  | true =>
    have hfresh : e = Entry.fresh := ho howns
    subst hfresh
    exact path_of_owns howns hr hs
  | false =>
    rcases he.blank_or_loaded with hb | ⟨-, hd⟩
    · have hidle := idle_of_blank howns hb hs
      have hstanding : errand.standing s e = e.standing := by
        cases errand <;> first | rfl | cases howns
      rw [hstanding, hidle.entry, Section.happenings, hidle.calls]
      exact .refl
    · exact path_of_loaded howns hd hr hs

end Errand

end ResourceHost
