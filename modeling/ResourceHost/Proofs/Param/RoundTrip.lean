import ResourceHost.Proofs.Json.RoundTrip
import ResourceHost.Proofs.Json.Sorted

/-!
# Parameters, printed and read

The text of a parameter says which of the six kinds every value in it has, as
long as there are no floats: reading the text gives the parameter back.
-/

namespace ResourceHost

namespace Param.Value

mutual

/-- How many sequences and maps stand one inside the other. -/
def nesting : Value → Nat
  | .sequence items => itemsNesting items + 1
  | .map entries => entriesNesting entries + 1
  | _ => 0

def itemsNesting : List Value → Nat
  | [] => 0
  | v :: vs => max (nesting v) (itemsNesting vs)

def entriesNesting : List (String × Value) → Nat
  | [] => 0
  | (_, v) :: es => max (nesting v) (entriesNesting es)

end

mutual

/-- Whether every map in a parameter is sorted by key, each key in it once. -/
def isSorted : Value → Bool
  | .sequence items => itemsSorted items
  | .map entries => decide (Sorted.Ascending entries) && entriesSorted entries
  | _ => true

def itemsSorted : List Value → Bool
  | [] => true
  | v :: vs => isSorted v && itemsSorted vs

def entriesSorted : List (String × Value) → Bool
  | [] => true
  | (_, v) :: es => isSorted v && entriesSorted es

end

/-- A property of parameters holds if it passes from the items of a sequence and
the entries of a map to the whole. -/
theorem induct {P : Value → Prop} (truth : ∀ b, P (.truth b))
    (integer : ∀ n, P (.integer n)) (real : ∀ x, P (.real x))
    (text : ∀ s, P (.text s))
    (sequence : ∀ items, (∀ v ∈ items, P v) → P (.sequence items))
    (map : ∀ entries, (∀ e ∈ entries, P e.2) → P (.map entries)) (v : Value) :
    P v :=
  @Value.rec P (fun items => ∀ v ∈ items, P v)
    (fun entries => ∀ e ∈ entries, P e.2) (fun e => P e.2)
    truth integer real text sequence map nofun
    (fun _ _ hv hvs => List.forall_mem_cons.2 ⟨hv, hvs⟩) nofun
    (fun _ _ he hes => List.forall_mem_cons.2 ⟨he, hes⟩) (fun _ _ hv => hv) v

theorem itemsToJson_eq (vs : List Value) : itemsToJson vs = vs.map toJson := by
  induction vs with
  | nil => rfl
  | cons v vs ih => rw [itemsToJson, ih]; rfl

theorem entriesToJson_eq (es : List (String × Value)) :
    entriesToJson es = es.map fun e => (e.1, toJson e.2) := by
  induction es with
  | nil => rfl
  | cons e es ih => rw [entriesToJson, ih]; rfl

theorem itemsExact_iff (vs : List Value) :
    itemsExact vs = true ↔ ∀ v ∈ vs, v.isExact = true := by
  induction vs with
  | nil => exact ⟨fun _ => nofun, fun _ => rfl⟩
  | cons v vs ih => rw [itemsExact, Bool.and_eq_true, ih, List.forall_mem_cons]

theorem entriesExact_iff (es : List (String × Value)) :
    entriesExact es = true ↔ ∀ e ∈ es, e.2.isExact = true := by
  induction es with
  | nil => exact ⟨fun _ => nofun, fun _ => rfl⟩
  | cons e es ih =>
    rw [entriesExact, Bool.and_eq_true, ih, List.forall_mem_cons]

theorem itemsSorted_iff (vs : List Value) :
    itemsSorted vs = true ↔ ∀ v ∈ vs, v.isSorted = true := by
  induction vs with
  | nil => exact ⟨fun _ => nofun, fun _ => rfl⟩
  | cons v vs ih => rw [itemsSorted, Bool.and_eq_true, ih, List.forall_mem_cons]

theorem entriesSorted_iff (es : List (String × Value)) :
    entriesSorted es = true ↔ ∀ e ∈ es, e.2.isSorted = true := by
  induction es with
  | nil => exact ⟨fun _ => nofun, fun _ => rfl⟩
  | cons e es ih =>
    rw [entriesSorted, Bool.and_eq_true, ih, List.forall_mem_cons]

theorem itemsNesting_le_iff {d : Nat} (vs : List Value) :
    itemsNesting vs ≤ d ↔ ∀ v ∈ vs, v.nesting ≤ d := by
  induction vs with
  | nil => exact ⟨fun _ => nofun, fun _ => Nat.zero_le d⟩
  | cons v vs ih => rw [itemsNesting, Nat.max_le, ih, List.forall_mem_cons]

theorem entriesNesting_le_iff {d : Nat} (es : List (String × Value)) :
    entriesNesting es ≤ d ↔ ∀ e ∈ es, e.2.nesting ≤ d := by
  induction es with
  | nil => exact ⟨fun _ => nofun, fun _ => Nat.zero_le d⟩
  | cons e es ih => rw [entriesNesting, Nat.max_le, ih, List.forall_mem_cons]

/-! ### The text of a parameter -/

/-- A parameter without floats is a JSON value that is read back from its
text. -/
theorem plain_toJson {v : Value} (hexact : v.isExact = true) :
    ∀ {d : Nat}, v.nesting ≤ d → Json.Value.Plain d v.toJson := by
  induction v using induct with
  | truth b => exact fun {d} _ => .truth d b
  | integer n =>
    exact fun {d} _ => .integer d n.le_toInt
      (Int.le_of_lt (Int.lt_trans n.toInt_lt (by decide)))
  | real x => exact Bool.noConfusion hexact
  | text s => exact fun {d} _ => .text d s
  | sequence items ih =>
    intro d hd
    cases d with
    | zero => exact absurd hd (Nat.not_succ_le_zero _)
    | succ d =>
      have hexact := (itemsExact_iff items).1 hexact
      have hd := (itemsNesting_le_iff items).1 (Nat.le_of_succ_le_succ hd)
      rw [toJson, itemsToJson_eq]
      refine .array (List.forall_mem_map.2 ?_)
      exact fun v hv => ih v hv (hexact v hv) (hd v hv)
  | map entries ih =>
    intro d hd
    cases d with
    | zero => exact absurd hd (Nat.not_succ_le_zero _)
    | succ d =>
      have hexact := (entriesExact_iff entries).1 hexact
      have hd := (entriesNesting_le_iff entries).1 (Nat.le_of_succ_le_succ hd)
      rw [toJson, entriesToJson_eq]
      refine .object (List.forall_mem_map.2 ?_)
      exact fun e he => ih e he (hexact e he) (hd e he)

theorem ofItems?_itemsToJson {vs : List Value}
    (h : ∀ v ∈ vs, ofJson? v.toJson = some v) :
    ofItems? (itemsToJson vs) = some vs := by
  induction vs with
  | nil => rfl
  | cons v vs ih =>
    obtain ⟨hv, hvs⟩ := List.forall_mem_cons.1 h
    rw [itemsToJson, ofItems?, hv, ih hvs]
    rfl

theorem ofMembers?_entriesToJson {es : List (String × Value)}
    (h : ∀ e ∈ es, ofJson? e.2.toJson = some e.2) :
    ofMembers? (entriesToJson es) = some es := by
  induction es with
  | nil => rfl
  | cons e es ih =>
    obtain ⟨he, hes⟩ := List.forall_mem_cons.1 h
    rw [entriesToJson, ofMembers?, he, ih hes]
    rfl

theorem ofInteger_toInt (n : Int64) : ofInteger n.toInt = .integer n := by
  have hrange : -9223372036854775808 ≤ n.toInt ∧
      n.toInt ≤ 9223372036854775807 :=
    ⟨n.le_toInt, Int.le_of_lt_add_one n.toInt_lt⟩
  rw [ofInteger, if_pos hrange, Int64.ofInt_toInt]

/-- The JSON value of a parameter stands for that parameter. -/
theorem ofJson?_toJson {v : Value} (hsorted : v.isSorted = true) :
    ofJson? v.toJson = some v := by
  induction v using induct with
  | truth b => rfl
  | integer n => rw [toJson, ofJson?, ofInteger_toInt]
  | real x => rfl
  | text s => rfl
  | sequence items ih =>
    have hsorted := (itemsSorted_iff items).1 hsorted
    rw [toJson, ofJson?,
      ofItems?_itemsToJson fun v hv => ih v hv (hsorted v hv)]
    rfl
  | map entries ih =>
    obtain ⟨hascending, hsorted⟩ := Bool.and_eq_true_iff.1 hsorted
    have hsorted := (entriesSorted_iff entries).1 hsorted
    rw [toJson, ofJson?,
      ofMembers?_entriesToJson fun e he => ih e he (hsorted e he)]
    exact congrArg (some ∘ Value.map)
      (Sorted.ofMembers_of_ascending (of_decide_eq_true hascending))

/-! ### Reading the text -/

open Json.Reader

theorem reads {v : Value} (hexact : v.isExact = true)
    (hsorted : v.isSorted = true) {turns d : Nat}
    (hturns : v.toJson.print.length < turns) (hd : v.nesting ≤ d) :
    Reads reader ⟨turns, d⟩ v.toJson.print v := by
  intro rest hrest
  rw [reader, bind_of_ok ((plain_toJson hexact hd).reads hturns rest hrest),
    ofJson?_toJson hsorted]
  rfl

theorem ofBytes_compact {v : Value} (hexact : v.isExact = true)
    (hsorted : v.isSorted = true) (hd : v.nesting ≤ maxDepth) :
    ofBytes (Text.toBytes v.compact) = .ok v :=
  run_of_reads (reads hexact hsorted
    (Nat.lt_succ_of_le (Text.length_le_length_encode _)) hd)

theorem eq_of_compact_eq {v w : Value} (hv : v.isExact = true)
    (hv' : v.isSorted = true) (hw : w.isExact = true) (hw' : w.isSorted = true)
    (h : v.compact = w.compact) : v = w := by
  have hjson : v.toJson = w.toJson :=
    (plain_toJson hv (Nat.le_max_left _ w.nesting)).eq_of_compact_eq
      (plain_toJson hw (Nat.le_max_right _ _)) h
  have hread := ofJson?_toJson hv'
  rw [hjson, ofJson?_toJson hw'] at hread
  exact (Option.some.inj hread).symm

/-- Parameters without floats survive their text: each is read back as it was,
and no two of them have one text.  That their maps are sorted is no condition
on them but on the lists that stand for maps: see `isSorted_of_ofBytes`. -/
theorem compact_round_trip :
    (∀ v : Value, v.isExact = true → v.isSorted = true → v.nesting ≤ 127 →
      ofBytes (Text.toBytes v.compact) = .ok v) ∧
    (∀ v w : Value, v.isExact = true → v.isSorted = true → w.isExact = true →
      w.isSorted = true → v ≠ w → v.compact ≠ w.compact) :=
  ⟨fun _ hexact hsorted hd => ofBytes_compact hexact hsorted hd,
    fun _ _ hv hv' hw hw' => mt (eq_of_compact_eq hv hv' hw hw')⟩

/-- The bounds of integers, characters that are escaped and others that are not,
and what is empty. -/
def boundaryValue : Value :=
  .map [("", .sequence []),
    ("\t\"\\\x01", .text "café 🦀\n"),
    ("bounds", .sequence [.integer (-9223372036854775808), .integer 0,
      .integer 9223372036854775807, .truth false]),
    ("é", .map [("", .map []), ("a", .sequence [.sequence [], .text ""])])]

theorem compact_round_trip_of_boundaries :
    (boundaryValue.isExact = true ∧ boundaryValue.isSorted = true ∧
      boundaryValue.nesting ≤ 127 ∧
      ofBytes (Text.toBytes boundaryValue.compact) = .ok boundaryValue) ∧
    (sequence [] ≠ map [] ∧ (sequence []).compact ≠ (map []).compact) :=
  have hexact : boundaryValue.isExact = true := by decide
  have hsorted : boundaryValue.isSorted = true := by decide
  have hnesting : boundaryValue.nesting ≤ 127 := by decide
  ⟨⟨hexact, hsorted, hnesting,
      compact_round_trip.1 boundaryValue hexact hsorted hnesting⟩,
    ⟨nofun,
      compact_round_trip.2 (sequence []) (map []) rfl rfl rfl
        (by decide) nofun⟩⟩

/-! ### What reading gives -/

theorem exists_of_mem_ofItems? {js : List Json.Value} {vs : List Value}
    (h : ofItems? js = some vs) {v : Value} (hv : v ∈ vs) :
    ∃ j ∈ js, ofJson? j = some v := by
  induction js generalizing vs with
  | nil => exact absurd (Option.some.inj h ▸ hv) List.not_mem_nil
  | cons j js ih =>
    obtain ⟨w, hw, h⟩ := Option.bind_eq_some_iff.1 h
    obtain ⟨ws, hws, h⟩ := Option.bind_eq_some_iff.1 h
    cases List.mem_cons.1 (Option.some.inj h ▸ hv) with
    | inl he => exact ⟨j, List.mem_cons_self, he ▸ hw⟩
    | inr hv =>
      obtain ⟨j', hj', h'⟩ := ih hws hv
      exact ⟨j', List.mem_cons_of_mem j hj', h'⟩

theorem exists_of_mem_ofMembers? {ms : List (String × Json.Value)}
    {es : List (String × Value)} (h : ofMembers? ms = some es)
    {e : String × Value} (he : e ∈ es) : ∃ m ∈ ms, ofJson? m.2 = some e.2 := by
  induction ms generalizing es with
  | nil => exact absurd (Option.some.inj h ▸ he) List.not_mem_nil
  | cons m ms ih =>
    obtain ⟨w, hw, h⟩ := Option.bind_eq_some_iff.1 h
    obtain ⟨ws, hws, h⟩ := Option.bind_eq_some_iff.1 h
    cases List.mem_cons.1 (Option.some.inj h ▸ he) with
    | inl he => exact ⟨m, List.mem_cons_self, he ▸ hw⟩
    | inr he =>
      obtain ⟨m', hm', h'⟩ := ih hws he
      exact ⟨m', List.mem_cons_of_mem m hm', h'⟩

theorem exists_of_ofJson?_sequence {j : Json.Value} {items : List Value}
    (h : ofJson? j = some (.sequence items)) :
    ∃ js, ofItems? js = some items := by
  cases j with
  | array js =>
    obtain ⟨items', hjs, he⟩ := Option.map_eq_some_iff.1 h
    exact ⟨js, Value.sequence.inj he ▸ hjs⟩
  | integer n =>
    rw [ofJson?, ofInteger] at h
    split at h <;> cases h
  | object ms =>
    obtain ⟨es, -, he⟩ := Option.map_eq_some_iff.1 h
    cases he
  | _ => cases h

theorem exists_of_ofJson?_map {j : Json.Value} {entries : List (String × Value)}
    (h : ofJson? j = some (.map entries)) :
    ∃ ms es, ofMembers? ms = some es ∧ Sorted.ofMembers es = entries := by
  cases j with
  | object ms =>
    obtain ⟨es, hms, he⟩ := Option.map_eq_some_iff.1 h
    exact ⟨ms, es, hms, Value.map.inj he⟩
  | integer n =>
    rw [ofJson?, ofInteger] at h
    split at h <;> cases h
  | array js =>
    obtain ⟨items, -, he⟩ := Option.map_eq_some_iff.1 h
    cases he
  | _ => cases h

/-- Whatever JSON value a parameter was made from, its maps are sorted. -/
theorem isSorted_of_ofJson? {v : Value} :
    ∀ {j : Json.Value}, ofJson? j = some v →
    v.isSorted = true := by
  induction v using induct with
  | truth b => exact fun _ => rfl
  | integer n => exact fun _ => rfl
  | real x => exact fun _ => rfl
  | text s => exact fun _ => rfl
  | sequence items ih =>
    intro j h
    obtain ⟨js, hjs⟩ := exists_of_ofJson?_sequence h
    refine (itemsSorted_iff items).2 fun v hv => ?_
    obtain ⟨j', -, h'⟩ := exists_of_mem_ofItems? hjs hv
    exact ih v hv h'
  | map entries ih =>
    intro j h
    obtain ⟨ms, es, hms, he⟩ := exists_of_ofJson?_map h
    refine Bool.and_eq_true_iff.2
      ⟨decide_eq_true (he ▸ Sorted.ascending_ofMembers es),
        (entriesSorted_iff entries).2 fun e hmem => ?_⟩
    obtain ⟨m, -, h'⟩ :=
      exists_of_mem_ofMembers? hms (Sorted.mem_of_mem_ofMembers (he ▸ hmem))
    exact ih e hmem h'

/-- All that is read is sorted. -/
theorem isSorted_of_ofBytes {bytes : List UInt8} {v : Value}
    (h : ofBytes bytes = .ok v) : v.isSorted = true := by
  obtain ⟨rest, hread⟩ := exists_of_run_ok h
  obtain ⟨j, s', -, hjson⟩ := exists_of_bind_ok hread
  cases hv : ofJson? j with
  | none =>
    rw [hv] at hjson
    cases hjson
  | some w =>
    rw [hv] at hjson
    cases hjson
    exact isSorted_of_ofJson? hv

/-! ### The variants in their order

A JSON value becomes the first variant that takes it.  The order matters for
integers: a float takes them too. -/

def truthOf? : Json.Value → Option Value
  | .truth b => some (.truth b)
  | _ => none

def integerOf? : Json.Value → Option Value
  | .integer n =>
    if -9223372036854775808 ≤ n ∧ n ≤ 9223372036854775807 then
      some (.integer (Int64.ofInt n))
    else none
  | _ => none

def realOf? : Json.Value → Option Value
  | .integer n =>
    some (.real (if 0 ≤ n then (UInt64.ofNat n.toNat).toFloat
      else (Int64.ofInt n).toFloat))
  | .real x => some (.real x)
  | _ => none

def textOf? : Json.Value → Option Value
  | .text s => some (.text s)
  | _ => none

def sequenceOf? : Json.Value → Option Value
  | .array items => (ofItems? items).map .sequence
  | _ => none

def mapOf? : Json.Value → Option Value
  | .object members =>
    (ofMembers? members).map fun ms => .map (Sorted.ofMembers ms)
  | _ => none

/-- The variants as they are tried. -/
def variants : List (Json.Value → Option Value) :=
  [truthOf?, integerOf?, realOf?, textOf?, sequenceOf?, mapOf?]

/-- No JSON integer lies below the integers of 64 bits. -/
theorem ofJson?_eq_findSome? {j : Json.Value}
    (h : ∀ n, j = .integer n → -9223372036854775808 ≤ n) :
    ofJson? j = variants.findSome? fun variant? => variant? j := by
  cases j with
  | integer n =>
    have hlow := h n rfl
    by_cases hhigh : n ≤ 9223372036854775807
    · have hrange := And.intro hlow hhigh
      simp only [variants, List.findSome?, truthOf?, integerOf?, ofJson?,
        ofInteger, if_pos hrange]
    · have hrange : ¬ (-9223372036854775808 ≤ n ∧ n ≤ 9223372036854775807) :=
        fun h => hhigh h.2
      have hnonneg : 0 ≤ n := by omega
      simp only [variants, List.findSome?, truthOf?, integerOf?, realOf?,
        ofJson?, ofInteger, if_neg hrange, if_pos hnonneg]
  | array items =>
    simp only [variants, List.findSome?, truthOf?, integerOf?, realOf?, textOf?,
      sequenceOf?, ofJson?]
    cases ofItems? items <;> rfl
  | object members =>
    simp only [variants, List.findSome?, truthOf?, integerOf?, realOf?, textOf?,
      sequenceOf?, mapOf?, ofJson?]
    cases ofMembers? members <;> rfl
  | _ => rfl

end Param.Value

/-! ### Records -/

namespace Param.Record

open Json.Reader

theorem print_map (r : Record) :
    (Value.map r).toJson.print =
      Json.Print.object (r.map (Json.Print.memberBy (·.toJson.print))) := by
  rw [Value.toJson, Value.entriesToJson_eq, Json.Value.print,
    Json.Value.printMembers_eq, List.map_map]
  rfl

theorem reads {r : Record} (hexact : (Value.map r).isExact = true)
    (hsorted : (Value.map r).isSorted = true) {turns d : Nat}
    (hturns : (Value.map r).toJson.print.length < turns)
    (hd : (Value.map r).nesting ≤ d + 1) :
    Reads reader ⟨turns, d + 1⟩ (Value.map r).toJson.print r := by
  have hexact := (Value.entriesExact_iff r).1 hexact
  obtain ⟨hascending, hsorted⟩ := Bool.and_eq_true_iff.1 hsorted
  have hsorted := (Value.entriesSorted_iff r).1 hsorted
  have hd := (Value.entriesNesting_le_iff r).1 (Nat.le_of_succ_le_succ hd)
  rw [print_map] at hturns ⊢
  obtain ⟨hlength, hcount⟩ :=
    Json.Print.length_lt_length_object (·.toJson.print) r
  intro rest hrest
  rw [reader,
    bind_of_ok (object_print (fun e he => Value.reads (hexact e he)
        (hsorted e he)
      (Nat.lt_trans (hlength e he) hturns) (hd e he))
      (Nat.lt_trans hcount hturns) rest hrest)]
  exact congrArg (fun r => Except.ok (r, rest))
    (Sorted.ofMembers_of_ascending (of_decide_eq_true hascending))

/-- A record without floats is read back from its text. -/
theorem ofBytes_compact {r : Record} (hexact : (Value.map r).isExact = true)
    (hsorted : (Value.map r).isSorted = true)
    (hd : (Value.map r).nesting ≤ maxDepth) :
    ofBytes (Text.toBytes (Value.map r).compact) = .ok r :=
  run_of_reads (reads hexact hsorted
    (Nat.lt_succ_of_le (Text.length_le_length_encode _)) hd)

end Param.Record

end ResourceHost
