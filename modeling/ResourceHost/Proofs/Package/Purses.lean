import ResourceHost.Package.Loading

/-!
# What loading and unloading a package may ask

A program that unloads a package first asks for the manifest.  From then on it
releases what is due, which is what the manifest lists, once for each time it is
listed; and it evicts only what it has been told that nothing is left of.  A
program that loads a package does neither.
-/

namespace ResourceHost

open Package

/-- What a program may still release and evict. -/
inductive Purse where
  /-- Nothing, until the manifest at this handle is known. -/
  | awaiting (h : Handle)
  /-- What is due once for each time it is listed, and what is spent. -/
  | opened (due spent : List Handle)

/-- The manifest that an answer tells, with its handle. -/
def Request.manifest? : (r : Request) → r.Reply → Option (Handle × Manifest)
  | .visit h .get, .ok x => x.content.asPackage?.map fun m => (h, m)
  | _, _ => none

namespace Purse

/-- What may still be released. -/
def due : Purse → List Handle
  | awaiting _ => []
  | opened due _ => due

/-- What may be evicted. -/
def spent : Purse → List Handle
  | awaiting _ => []
  | opened _ spent => spent

/-- The handle at which a manifest is awaited. -/
def awaited? : Purse → Option Handle
  | awaiting h => some h
  | opened _ _ => none

/-- What is in the purse after an answer. -/
def after (w : Purse) (r : Request) (a : r.Reply) : Purse :=
  match r, a with
  | .visit h .release, .ok (_ + 1) => opened (w.due.erase h) w.spent
  | .visit h .release, _ => opened (w.due.erase h) (h :: w.spent)
  | r, a =>
    match w, r.manifest? a with
    | awaiting h, some (h', m) =>
      if h' = h then opened m.handles [] else awaiting h
    | w, _ => w

@[simp] theorem due_after_release (w : Purse) (h : Handle)
    (a : Except Failure Nat) :
    (w.after (.visit h .release) a).due = w.due.erase h := by
  match a with
  | .ok 0 => rfl
  | .ok (n + 1) => rfl
  | .error f => rfl

@[simp] theorem awaited?_after_release (w : Purse) (h : Handle)
    (a : Except Failure Nat) :
    (w.after (.visit h .release) a).awaited? = none := by
  match a with
  | .ok 0 => rfl
  | .ok (n + 1) => rfl
  | .error f => rfl

/-- What a release finds no reference left to is spent. -/
theorem spent_after_release {w : Purse} {h h' : Handle} {n : Nat}
    (hh : h' ∈
      (w.after (.visit h .release) (.ok n : Except Failure Nat)).spent) :
    h' ∈ w.spent ∨ h' = h ∧ n = 0 := by
  cases n with
  | zero =>
    rcases List.mem_cons.1 hh with rfl | hh
    · exact .inr ⟨rfl, rfl⟩
    · exact .inl hh
  | succ n => exact .inl hh

/-- An answer to anything but a release tells the manifest that is awaited, or
makes no difference. -/
theorem after_cases (w : Purse) {r : Request} (hr : ∀ h, r ≠ .visit h .release)
    (a : r.Reply) :
    w.after r a = w ∨ ∃ h m, w = awaiting h ∧ r.manifest? a = some (h, m) ∧
      w.after r a = opened m.handles [] := by
  cases r with
  | visit h v =>
    cases v with
    | release => exact absurd rfl (hr h)
    | get =>
      have hafter : w.after (.visit h .get) a =
          match w, Request.manifest? (.visit h .get) a with
          | awaiting h, some (h', m) =>
            if h' = h then opened m.handles [] else awaiting h
          | w, _ => w := rfl
      rw [hafter]
      cases w with
      | opened due spent => exact .inl rfl
      | awaiting h' =>
        cases hm : Request.manifest? (.visit h .get) a with
        | none => exact .inl rfl
        | some x =>
          obtain ⟨h'', m⟩ := x
          by_cases hh : h'' = h'
          · subst hh
            exact .inr ⟨h'', m, rfl, rfl, if_pos rfl⟩
          · exact .inl (if_neg hh)
    | _ => cases w <;> exact .inl rfl
  | _ => cases w <;> exact .inl rfl

end Purse

/-- Releases only what is due, and evicts only what is spent. -/
def Request.Thrifty (w : Purse) : Request → Prop
  | .visit h .release => h ∈ w.due
  | .visit h .unload => h ∈ w.spent
  | _ => True

namespace Program

variable {α β : Type} {w : Purse}

/-- Every request of the program is thrifty, whatever the answers are. -/
def Thrifty : Program α → Purse → Prop
  | .done _, _ => True
  | .ask r next, w => r.Thrifty w ∧ ∀ a, (next a).Thrifty (w.after r a)

theorem thrifty_pure (a : α) (w : Purse) : (pure a : Program α).Thrifty w :=
  trivial

/-- Another result makes no difference. -/
theorem Thrifty.map {p : Program α} (hp : p.Thrifty w) (f : α → β) :
    (f <$> p).Thrifty w := by
  show (p.andThen fun a => .done (f a)).Thrifty w
  induction p generalizing w with
  | done a => trivial
  | ask r next ih => exact ⟨hp.1, fun a => ih a (hp.2 a)⟩

end Program

/-! ### An empty purse -/

/-- The purse of a program that neither releases nor evicts. -/
abbrev Purse.empty : Purse := .opened [] []

/-- It stays empty. -/
theorem Purse.after_empty {r : Request} (hr : r.Thrifty .empty) (a : r.Reply) :
    Purse.empty.after r a = .empty := by
  cases r with
  | visit h v =>
    cases v with
    | release => exact absurd hr List.not_mem_nil
    | get => cases a <;> rfl
    | _ => rfl
  | _ => rfl

namespace Program

variable {α β : Type}

theorem Thrifty.bind {p : Program α} {f : α → Program β} (hp : p.Thrifty .empty)
    (hf : ∀ a, (f a).Thrifty .empty) : (p >>= f).Thrifty .empty := by
  show (p.andThen f).Thrifty .empty
  induction p with
  | done a => exact hf a
  | ask r next ih =>
    refine ⟨hp.1, fun a => ?_⟩
    have hnext := hp.2 a
    rw [Purse.after_empty hp.1] at hnext ⊢
    exact ih a hnext

theorem Thrifty.orStop {p : Program (Except Failure α)}
    {f : α → Program (Except Failure β)} (hp : p.Thrifty .empty)
    (hf : ∀ a, (f a).Thrifty .empty) : (p.orStop f).Thrifty .empty := by
  refine hp.bind fun a => ?_
  cases a with
  | ok a => exact hf a
  | error e => exact thrifty_pure _ _

theorem thrifty_request {r : Request} (hr : r.Thrifty .empty) :
    (request r).Thrifty .empty :=
  ⟨hr, fun _ => trivial⟩

end Program

open Program

namespace Cache

theorem acquireAll_thrifty (t : TypeId) (k : Kind) (ns : List NameId) :
    (acquireAll t k ns).Thrifty .empty := by
  induction ns with
  | nil => exact thrifty_pure _ _
  | cons n ns ih =>
    exact (thrifty_request (r := .acquire ⟨t, n⟩ k) trivial).orStop fun _ => ih

theorem load_thrifty (t : TypeId) (ns : List NameId) :
    (load t ns).Thrifty .empty := by
  unfold load
  split
  · exact thrifty_pure _ _
  · refine Thrifty.orStop ?_ fun k => acquireAll_thrifty t k ns
    refine (thrifty_request (r := .kind t) trivial).bind fun k? => ?_
    cases k? <;> exact thrifty_pure _ _

theorem getPackage_thrifty (h : Handle) : (getPackage h).Thrifty .empty := by
  refine (thrifty_request (r := .visit h .get) trivial).orStop fun x => ?_
  split <;> exact thrifty_pure _ _

end Cache

namespace Package

theorem loadGroups_thrifty (gs : List Group) :
    (loadGroups gs).Thrifty .empty := by
  induction gs with
  | nil => exact thrifty_pure _ _
  | cons g gs ih => exact (Cache.load_thrifty g.type g.names).orStop fun _ => ih

/-- To load a package needs nothing in the purse. -/
theorem schedule_thrifty (p : NameId) : (schedule p).Thrifty .empty :=
  (Cache.getPackage_thrifty (handle p)).orStop fun m =>
    (loadGroups_thrifty m.groups).bind fun _ => thrifty_pure _ _

/-! ### Unloading -/

/-- Evicting what is spent. -/
theorem unloadAll_thrifty {β : Type} {t : TypeId} {ns : List NameId}
    {due spent : List Handle} {f : Unit → Program (Except Failure β)}
    (hns : ∀ n ∈ ns, ⟨t, n⟩ ∈ spent) (hf : (f ()).Thrifty (.opened due spent)) :
    ((Cache.unloadAll t ns).orStop f).Thrifty (.opened due spent) := by
  induction ns with
  | nil => exact hf
  | cons n ns ih =>
    refine ⟨hns n (by simp), fun a => ?_⟩
    cases a with
    | ok u => exact ih fun n' hn' => hns n' (by simp [hn'])
    | error e => trivial

/-- Releasing what is due first: the names that come out are spent. -/
theorem releaseAll_thrifty {β : Type} {t : TypeId} {ns unused : List NameId}
    {due spent : List Handle} {f : List NameId → Program β}
    (hunused : ∀ n ∈ unused, ⟨t, n⟩ ∈ spent)
    (hf : ∀ left spent', (∀ n ∈ left, ⟨t, n⟩ ∈ spent') →
      (f left).Thrifty (.opened due spent')) :
    (releaseAll t unused ns >>= f).Thrifty
      (.opened (ns.map (Handle.mk t) ++ due) spent) := by
  induction ns generalizing unused spent with
  | nil =>
    refine hf unused.reverse spent fun n hn => hunused n ?_
    simpa using hn
  | cons n ns ih =>
    -- The name that is released next is the first that is due.
    have herase : (Purse.opened ((n :: ns).map (Handle.mk t) ++ due)
          spent).due.erase ⟨t, n⟩ =
        ns.map (Handle.mk t) ++ due := by
      simp [Purse.due]
    have hmore : ∀ n' ∈ n :: unused,
        (⟨t, n'⟩ : Handle) ∈ (⟨t, n⟩ : Handle) :: spent := by
      intro n' hn'
      rcases List.mem_cons.1 hn' with rfl | hn'
      · exact List.mem_cons_self
      · exact List.mem_cons_of_mem _ (hunused n' hn')
    refine ⟨by simp [Request.Thrifty, Purse.due], fun a => ?_⟩
    match a with
    | .ok (left + 1) =>
      show Thrifty _ (.opened (List.erase _ _) spent)
      rw [herase]
      exact ih hunused
    | .ok 0 =>
      show Thrifty _ (.opened (List.erase _ _) (⟨t, n⟩ :: spent))
      rw [herase]
      exact ih hmore
    | .error e =>
      show Thrifty _ (.opened (List.erase _ _) (⟨t, n⟩ :: spent))
      rw [herase]
      exact ih hmore

theorem unloadGroups_thrifty (gs : List Group) (spent : List Handle) :
    (unloadGroups gs).Thrifty (.opened (Manifest.handles ⟨gs⟩) spent) := by
  induction gs generalizing spent with
  | nil => trivial
  | cons g gs ih =>
    have hsplit : Manifest.handles ⟨g :: gs⟩ =
        g.names.map (Handle.mk g.type) ++ Manifest.handles ⟨gs⟩ := rfl
    rw [hsplit]
    refine releaseAll_thrifty (by simp) fun left spent' hleft => ?_
    exact unloadAll_thrifty hleft (ih spent')

/-- Unloading asks for the manifest, and goes on with what it lists. -/
theorem unload_eq (p : NameId) :
    unload p =
      .ask (.visit (handle p) .get) fun (a : Except Failure Representation) =>
      match a with
      | .ok x =>
        match x.content.asPackage? with
        | some m => unloadGroups m.groups
        | none => pure (.error (.wrongShape (handle p) .package))
      | .error e => pure (.error e) := by
  show Program.ask _ _ = _
  congr 1
  funext a
  cases a with
  | error e => rfl
  | ok x =>
    dsimp only [Program.andThen]
    cases x.content.asPackage? <;> rfl

/-- To unload a package needs what its manifest lists. -/
theorem unload_thrifty (p : NameId) :
    (unload p).Thrifty (.awaiting (handle p)) := by
  rw [unload_eq]
  refine ⟨trivial, fun a => ?_⟩
  match a with
  | .error e => trivial
  | .ok x =>
    have hafter : (Purse.awaiting (handle p)).after (.visit (handle p) .get)
          (.ok x) =
        match x.content.asPackage? with
        | some m => .opened m.handles []
        | none => .awaiting (handle p) := by
      cases hm : x.content.asPackage? <;>
        simp [Purse.after, Request.manifest?, hm]
    rw [hafter]
    dsimp only
    cases x.content.asPackage? with
    | none => trivial
    | some m => exact unloadGroups_thrifty m.groups []

end Package

end ResourceHost
