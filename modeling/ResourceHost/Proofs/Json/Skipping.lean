import ResourceHost.Proofs.Json.RoundTrip
import ResourceHost.Proofs.Json.Spellings

/-!
# What is passed over

A value that nobody wants is passed over whatever it is: from its first byte to
the last, and not a byte further.
-/

namespace ResourceHost.Json

open Reader

/-! ### Numbers -/

theorem Digits.bytes {ds : List Char} (h : Digits ds) :
    Text.encode ds = ds.map byte ∧ (ds.map byte).isEmpty = false ∧
      ∀ b ∈ ds.map byte, isDigit b = true := by
  refine ⟨encode_of_isDigit h.2, by simpa using h.1, fun b hb => ?_⟩
  obtain ⟨c, hc, rfl⟩ := List.mem_map.1 hb
  exact isDigit_byte (h.2 c hc)

namespace Reader

variable {scope : Scope} {s rest : List UInt8} {w : List Char}

theorem skipDigits_digits {ds : List Char} (h : Digits ds)
    (hrest : Halts rest) :
    skipDigits scope (Text.encode ds ++ rest) = .ok (ds.map byte, rest) := by
  obtain ⟨hbytes, hempty, hdigit⟩ := h.bytes
  rw [skipDigits, hbytes, bind_of_ok (digits_of_halts hdigit hrest)]
  show (if (ds.map byte).isEmpty then _ else _ : Reader (List UInt8))
    scope rest = _
  rw [hempty]
  rfl

theorem exponentMark_cons {e : Char} (he : e = 'e' ∨ e = 'E') (s : List UInt8) :
    exponentMark scope (Text.encode [e] ++ s) = .ok (true, s) := by
  rcases he with rfl | rfl <;> rfl

/-- An exponent is neither a digit nor a point. -/
theorem pointMark_exponent (scope : Scope) {e : List Char} (he : Exponent e)
    (hrest : Apart rest) :
    Halts (Text.encode e ++ rest) ∧
      pointMark scope (Text.encode e ++ rest) =
        .ok (false, Text.encode e ++ rest) := by
  cases he with
  | none => exact ⟨hrest.halts, pointMark_of_apart hrest⟩
  | @some e sign ds he hs hd =>
    rcases he with rfl | rfl <;> exact ⟨halts_cons (by decide) _, rfl⟩

theorem skipExponent_exponent {e : List Char} (he : Exponent e)
    (hrest : Apart rest) :
    skipExponent scope (Text.encode e ++ rest) = .ok ((), rest) := by
  cases he with
  | none =>
    rw [skipExponent]
    show (exponentMark >>= _) scope rest = _
    rw [bind_of_ok (exponentMark_of_apart hrest)]
    rfl
  | @some e sign ds he hs hd =>
    have hdigits : (skipDigits >>= fun _ => pure ()) scope
          (Text.encode ds ++ rest) =
        .ok ((), rest) := by
      rw [bind_of_ok (skipDigits_digits hd hrest.halts)]
      rfl
    rw [← List.singleton_append, Text.encode_append, List.append_assoc,
      skipExponent, bind_of_ok (exponentMark_cons he _), if_pos rfl,
      Text.encode_append, List.append_assoc]
    rcases hs with rfl | rfl | rfl
    · -- The first digit is no sign.
      obtain ⟨hbytes, -, hdigit⟩ := hd.bytes
      obtain ⟨d, ds, rfl⟩ := List.exists_cons_of_ne_nil hd.1
      have hsign : (byte d == byte '+' || byte d == byte '-') = false := by
        rw [Value.beq_of_isDigit (hdigit _ List.mem_cons_self) (by decide),
          Value.beq_of_isDigit (hdigit _ List.mem_cons_self) (by decide)]
        rfl
      rw [hbytes] at hdigits ⊢
      show (if (byte d == byte '+' || byte d == byte '-') = true then _
          else _ : Reader Unit)
        scope _ = _
      rw [hsign]
      exact hdigits
    · exact hdigits
    · exact hdigits

/-- What comes behind the digits before the point. -/
theorem skip_fraction (scope : Scope) {f e : List Char} (hf : Fraction f)
    (he : Exponent e) (hrest : Apart rest) :
    Halts (Text.encode f ++ (Text.encode e ++ rest)) ∧
      (pointMark >>= fun point => if point then skipDigits >>=
        fun _ => skipExponent
          else skipExponent) scope (Text.encode f ++ (Text.encode e ++ rest)) =
        .ok ((), rest) := by
  obtain ⟨hhalts, hpoint⟩ := pointMark_exponent scope he hrest
  cases hf with
  | none =>
    refine ⟨hhalts, ?_⟩
    show (pointMark >>= _) scope (Text.encode e ++ rest) = _
    rw [bind_of_ok hpoint]
    exact skipExponent_exponent he hrest
  | @some ds hd =>
    refine ⟨halts_cons (by decide) _, ?_⟩
    show (skipDigits >>= fun _ => skipExponent) scope
      (Text.encode ds ++ (Text.encode e ++ rest)) = _
    rw [bind_of_ok (skipDigits_digits hd hhalts)]
    exact skipExponent_exponent he hrest

theorem zero_alone {ds : List Char} (h : Whole ds) :
    ((ds.map byte).head? ==
      some (byte '0') && decide ((ds.map byte).length > 1)) = false := by
  rw [Bool.and_eq_false_iff]
  by_cases hzero : ds.head? = some '0'
  · rw [h.2 hzero]
    exact .inr rfl
  · refine .inl (beq_eq_false_iff_ne.2 fun heq => hzero ?_)
    rw [List.head?_map] at heq
    obtain ⟨d, hd, hbyte⟩ := Option.map_eq_some_iff.1 heq
    have hdigit : d.isDigit := h.1.2 d (List.mem_of_head? hd)
    have htoNat : d.toNat = '0'.toNat := by
      rw [← toNat_byte hdigit, hbyte]
      rfl
    rw [hd, Char.toNat_inj.1 htoNat]

theorem skipNumber_magnitude {cs : List Char} (h : Magnitude cs)
    (hrest : Apart rest) :
    skipNumber scope (Text.encode cs ++ rest) = .ok ((), rest) := by
  cases h with
  | @parts ds f e hd hf he =>
    obtain ⟨hhalts, hbehind⟩ := skip_fraction scope hf he hrest
    rw [Text.encode_append, Text.encode_append, List.append_assoc,
      List.append_assoc, skipNumber, bind_of_ok (skipDigits_digits hd.1 hhalts)]
    show (if _ then _ else _ : Reader Unit) scope _ = _
    rw [zero_alone hd]
    exact hbehind

/-! ### Keys and brackets -/

/-- Goes on to an item or a member inside a bracket. -/
def skipElement : Bracket → Nat → List Bracket → Reader Unit
  | .array, n, stack => skipValue n (.array :: stack)
  | .object, n, stack => do
    skipKey
    skipValue n (.object :: stack)

/-- A byte that is neither a space nor a closing bracket. -/
abbrev BeginsElement (b : UInt8) : Prop :=
  isSpace b = false ∧ b ≠ byte ']' ∧ b ≠ byte '\x7d'

/-- The bytes begin as any item and any member does. -/
def Begins (s : List UInt8) : Prop := ∃ b tail, s = b :: tail ∧ BeginsElement b

theorem Begins.append (h : Begins s) (rest : List UInt8) :
    Begins (s ++ rest) := by
  obtain ⟨b, tail, rfl, hb⟩ := h
  exact ⟨b, tail ++ rest, rfl, hb⟩

theorem skipValue_blank (hw : Blank w) (n : Nat) (stack : List Bracket)
    (s : List UInt8) :
    skipValue n stack scope (Text.encode w ++ s) =
      skipValue n stack scope s := by
  cases n with
  | zero => rfl
  | succ n =>
    rw [skipValue, look_blank hw]

theorem skipKey_blank (hw : Blank w) (s : List UInt8) :
    skipKey scope (Text.encode w ++ s) = skipKey scope s := by
  rw [skipKey, look_blank hw]

theorem skipElement_blank (hw : Blank w) (k : Bracket) (n : Nat)
    (stack : List Bracket) (s : List UInt8) :
    skipElement k n stack scope (Text.encode w ++ s) =
      skipElement k n stack scope s := by
  cases k with
  | array => exact skipValue_blank hw n _ s
  | object =>
    show andThen skipKey _ scope _ = andThen skipKey _ scope _
    rw [andThen, andThen, skipKey_blank hw]

theorem skipKey_body {key w : List Char} (hk : Body key) (hw : Blank w)
    (s : List UInt8) :
    skipKey scope (byte '"' ::
        (Text.encode key ++ byte '"' :: (Text.encode w ++ byte ':' :: s))) =
      .ok ((), s) := by
  rw [skipKey, look_bind (by decide)]
  dsimp only
  rw [if_pos (beq_self_eq_true _), next_bind, bind_of_ok (skipText_body hk _),
    look_blank_bind hw (by decide)]
  rfl

theorem skipAfter_comma {l : List Char} (hl : Lead false l) (k : Bracket)
    (n : Nat) (stack : List Bracket) (s : List UInt8) :
    skipAfter (n + 1) (k :: stack) scope (Text.encode l ++ s) =
      skipElement k n stack scope s := by
  cases hl with
  | @next w w' hw hw' =>
    rw [← skipElement_blank hw', Text.encode_append,
      encode_ascii_cons (c := ',') (by decide), List.append_assoc,
      List.cons_append]
    cases k with
    | array =>
      rw [skipAfter, look_blank_bind hw (by decide)]
      rfl
    | object =>
      rw [skipAfter, look_blank_bind hw (by decide)]
      rfl

theorem skipAfter_close (hw : Blank w) (k : Bracket) (n : Nat)
    (stack : List Bracket) (s : List UInt8) :
    skipAfter (n + 1) (k :: stack) scope
        (Text.encode w ++ byte k.closing :: s) =
      skipAfter n stack scope s := by
  cases k with
  | array =>
    rw [skipAfter, look_blank_bind hw (by decide)]
    rfl
  | object =>
    rw [skipAfter, look_blank_bind hw (by decide)]
    rfl

/-- Behind an opening bracket it is looked for the closing one first. -/
theorem skipValue_opening (k : Bracket) (n : Nat) (stack : List Bracket)
    (s : List UInt8) :
    skipValue (n + 1) stack scope (byte k.opening :: s) =
      (look >>= fun
        | none => fail .ended
        | some c =>
          if c == byte k.closing then next >>= fun _ => skipAfter n stack
          else skipElement k n stack) scope s := by
  cases k with
  | array =>
    rw [skipValue, look_bind (by decide)]
    dsimp only
    rw [if_pos (by decide), next_bind]
    rfl
  | object =>
    rw [skipValue, look_bind (by decide)]
    dsimp only
    rw [if_neg (by decide), if_pos (by decide), next_bind]
    rfl

theorem encode_opening (k : Bracket) (cs : List Char) :
    Text.encode (k.opening :: cs) = byte k.opening :: Text.encode cs := by
  cases k <;> exact encode_ascii_cons (by decide) cs

theorem encode_closing (k : Bracket) :
    Text.encode [k.closing] = [byte k.closing] := by
  cases k <;> rfl

theorem beginsElement_opening (k : Bracket) :
    BeginsElement (byte k.opening) := by
  cases k <;> decide

theorem endsNumber_closing (k : Bracket) : EndsNumber (byte k.closing) := by
  cases k <;> decide

theorem isSpace_closing (k : Bracket) : isSpace (byte k.closing) = false := by
  cases k <;> decide

theorem skipValue_empty (hw : Blank w) (k : Bracket) (n : Nat)
    (stack : List Bracket) (s : List UInt8) :
    skipValue (n + 1) stack scope (byte k.opening ::
        (Text.encode w ++ byte k.closing :: s)) =
      skipAfter n stack scope s := by
  rw [skipValue_opening, look_blank_bind hw (isSpace_closing k)]
  dsimp only
  rw [if_pos (beq_self_eq_true _), next_bind]

theorem skipValue_open (hw : Blank w) (hs : Begins s) (k : Bracket) (n : Nat)
    (stack : List Bracket) :
    skipValue (n + 1) stack scope (byte k.opening :: (Text.encode w ++ s)) =
      skipElement k n stack scope s := by
  obtain ⟨b, tail, rfl, hspace, harray, hobject⟩ := hs
  have hclosing : (b == byte k.closing) = false := by
    cases k with
    | array => exact beq_eq_false_iff_ne.2 harray
    | object => exact beq_eq_false_iff_ne.2 hobject
  rw [skipValue_opening, look_blank_bind hw hspace]
  dsimp only
  rw [hclosing, if_neg Bool.false_ne_true]

/-! ### Values -/

/-- One reader takes a text and then is at what another one does, with no more
turns than the text has characters. -/
def Passes (scope : Scope) (r r' : Nat → Reader Unit) (cs : List Char) : Prop :=
  ∃ m, m ≤ cs.length ∧ ∀ n rest, Apart rest →
    r (m + n) scope (Text.encode cs ++ rest) = r' n scope rest

/-- A value that holds no other is passed over in one turn. -/
theorem passes_leaf {cs : List Char} (hne : cs ≠ []) {stack : List Bracket}
    (h : ∀ n rest, Apart rest →
      skipValue (n + 1) stack scope (Text.encode cs ++ rest) =
        skipAfter n stack scope rest) :
    Passes scope (skipValue · stack) (skipAfter · stack) cs :=
  ⟨1, List.length_pos_iff.2 hne,
    fun n rest hrest => Nat.add_comm 1 n ▸ h n rest hrest⟩

theorem passes_word {cs : List Char} (h : cs ∈ words) (stack : List Bracket) :
    Passes scope (skipValue · stack) (skipAfter · stack) cs := by
  simp only [words, List.mem_cons, List.not_mem_nil, or_false] at h
  rcases h with rfl | rfl | rfl <;>
    exact passes_leaf (by decide) fun n rest _ => rfl

theorem passes_text {cs : List Char} (h : Body cs) (stack : List Bracket) :
    Passes scope (skipValue · stack) (skipAfter · stack)
      ('"' :: (cs ++ ['"'])) := by
  refine passes_leaf (List.cons_ne_nil _ _) fun n rest _ => ?_
  rw [← List.cons_append, encode_enclosed (by decide) (by decide), skipValue,
    look_bind (by decide)]
  dsimp only
  rw [if_neg (by decide), if_neg (by decide), if_neg (by decide),
    if_neg (by decide), if_neg (by decide), if_pos (by decide), next_bind,
    bind_of_ok (skipText_body h rest)]

theorem passes_negative {cs : List Char} (h : Magnitude cs)
    (stack : List Bracket) :
    Passes scope (skipValue · stack) (skipAfter · stack) ('-' :: cs) := by
  refine passes_leaf (List.cons_ne_nil _ _) fun n rest hrest => ?_
  rw [encode_ascii_cons (by decide), List.cons_append, skipValue,
    look_bind (by decide)]
  dsimp only
  rw [if_neg (by decide), if_neg (by decide), if_neg (by decide),
    if_neg (by decide), if_neg (by decide), if_neg (by decide),
    if_pos (by decide), next_bind,
    bind_of_ok (skipNumber_magnitude h hrest)]

end Reader

theorem Magnitude.exists_digit {cs : List Char} (h : Magnitude cs) :
    ∃ d tail, cs = d :: tail ∧ d.isDigit := by
  cases h with
  | @parts ds f e hd hf he =>
    obtain ⟨d, ds, rfl⟩ := List.exists_cons_of_ne_nil hd.1.1
    exact ⟨d, _, List.cons_append, hd.1.2 d List.mem_cons_self⟩

theorem Magnitude.begins {cs : List Char} (h : Magnitude cs) :
    ∃ b tail, Text.encode cs = b :: tail ∧ isDigit b = true := by
  obtain ⟨d, tail, rfl, hd⟩ := h.exists_digit
  exact ⟨byte d, _, encode_ascii_cons (toNat_lt_of_isDigit hd) tail,
    isDigit_byte hd⟩

namespace Reader

theorem passes_positive {cs : List Char} (h : Magnitude cs)
    (stack : List Bracket) :
    Passes scope (skipValue · stack) (skipAfter · stack) cs := by
  obtain ⟨b, tail, hbytes, hb⟩ := h.begins
  have hne : ∀ c, isDigit c = false → (b == c) = false :=
    fun c => Value.beq_of_isDigit hb
  refine passes_leaf (fun hnil => ?_) fun n rest hrest => ?_
  · subst hnil
    cases hbytes
  · have hnumber : skipNumber scope (Text.encode cs ++ rest) = .ok ((), rest) :=
      skipNumber_magnitude h hrest
    rw [hbytes] at hnumber ⊢
    rw [List.cons_append] at hnumber ⊢
    rw [skipValue, look_bind (Value.isSpace_of_isDigit hb)]
    dsimp only
    rw [hne _ (by decide), hne _ (by decide), hne _ (by decide),
      hne _ (by decide), hne _ (by decide), hne _ (by decide),
      hne _ (by decide), hb]
    exact bind_of_ok hnumber _

/-- What it is to pass over a part of the grammar.  What is inside a bracket
begins where the bracket has been taken if it has the first element, and else
behind an element. -/
def Passed (scope : Scope) : Part → List Char → Prop
  | .value, cs =>
    Begins (Text.encode cs) ∧
      ∀ stack, Passes scope (skipValue · stack) (skipAfter · stack) cs
  | .element k, cs =>
    Begins (Text.encode cs) ∧
      ∀ stack,
      Passes scope (skipElement k · stack) (skipAfter · (k :: stack)) cs
  | .inside k false, cs =>
    ∀ stack,
      Passes scope (skipAfter · (k :: stack)) (skipAfter · (k :: stack)) cs
  | .inside k true, cs =>
    cs = [] ∨ ∃ w es, cs = w ++ es ∧ Blank w ∧ Begins (Text.encode es) ∧
      ∀ stack,
      Passes scope (skipElement k · stack) (skipAfter · (k :: stack)) es

/-- Brackets are passed over with what is inside them. -/
theorem passes_enclosed {k : Bracket} {es w : List Char}
    (h : Passed scope (.inside k true) es) (hw : Blank w)
    (stack : List Bracket) :
    Passes scope (skipValue · stack) (skipAfter · stack)
      (k.opening :: (es ++ (w ++ [k.closing]))) := by
  rcases h with rfl | ⟨w₀, es', rfl, hw₀, hbegins, hpasses⟩
  · refine ⟨1, by rw [List.length_cons]; omega, fun n rest _ => ?_⟩
    have hbytes : Text.encode (k.opening :: ([] ++ (w ++ [k.closing]))) ++
          rest =
        byte k.opening :: (Text.encode w ++ byte k.closing :: rest) := by
      rw [encode_opening, List.nil_append, Text.encode_append, encode_closing]
      simp
    rw [hbytes, Nat.add_comm]
    exact skipValue_empty hw k n stack rest
  · obtain ⟨m, hm, hpass⟩ := hpasses stack
    refine ⟨m + 1 + 1, ?_, fun n rest _ => ?_⟩
    · simp only [List.length_cons, List.length_append, List.length_nil]
      omega
    · have hbytes : Text.encode (k.opening ::
            (w₀ ++ es' ++ (w ++ [k.closing]))) ++ rest =
          byte k.opening :: (Text.encode w₀ ++ (Text.encode es' ++
            (Text.encode w ++ byte k.closing :: rest))) := by
        simp only [encode_opening, Text.encode_append, encode_closing,
          List.append_assoc, List.cons_append, List.nil_append]
      have hturns : m + 1 + 1 + n = m + (n + 1) + 1 := by omega
      have hclosing : Apart (Text.encode w ++ byte k.closing :: rest) :=
        hw.apart (apart_cons (endsNumber_closing k) rest)
      rw [hbytes, hturns]
      show skipValue _ stack scope _ = _
      rw [skipValue_open hw₀ (hbegins.append _)]
      exact (hpass _ _ hclosing).trans (skipAfter_close hw k n stack rest)

theorem passes_member {key w w' v : List Char} {stack : List Bracket}
    (hk : Body key) (hw : Blank w) (hw' : Blank w')
    (h : Passes scope (skipValue · (.object :: stack))
      (skipAfter · (.object :: stack)) v) :
    Passes scope (skipElement .object · stack) (skipAfter · (.object :: stack))
      (memberText key w w' v) := by
  obtain ⟨m, hm, hpass⟩ := h
  refine ⟨m, ?_, fun n rest hrest => ?_⟩
  · simp only [memberText, List.length_cons, List.length_append]
    omega
  · rw [encode_memberText]
    show (skipKey >>= fun _ => skipValue (m + n) (.object :: stack)) scope _ = _
    rw [bind_of_ok (skipKey_body hk hw _), skipValue_blank hw']
    exact hpass n rest hrest

/-- What is passed over one after the other. -/
theorem Passes.append {r r' r'' : Nat → Reader Unit} {cs cs' : List Char}
    (h : Passes scope r r' cs) (h' : Passes scope r' r'' cs')
    (hapart : ∀ rest, Apart rest → Apart (Text.encode cs' ++ rest)) :
    Passes scope r r'' (cs ++ cs') := by
  obtain ⟨m, hm, hpass⟩ := h
  obtain ⟨m', hm', hpass'⟩ := h'
  refine ⟨m + m', ?_, fun n rest hrest => ?_⟩
  · rw [List.length_append]
    exact Nat.add_le_add hm hm'
  · rw [Text.encode_append, List.append_assoc, Nat.add_assoc,
      hpass _ _ (hapart rest hrest), hpass' n rest hrest]

end Reader

theorem Written.apart {k : Bracket} {es : List Char}
    (h : Written (.inside k false) es) {rest : List UInt8}
    (hrest : Apart rest) : Apart (Text.encode es ++ rest) := by
  cases h with
  | none => exact hrest
  | @some k first l e es hl h hs =>
    rw [Text.encode_append, List.append_assoc]
    exact hl.apart _

theorem Lead.length_pos {l : List Char} (hl : Lead false l) : 1 ≤ l.length := by
  cases hl with
  | @next w w' hw hw' =>
    rw [List.length_append, List.length_cons]
    omega

/-- What the grammar derives is passed over. -/
theorem Written.passed {part : Part} {cs : List Char} (h : Written part cs)
    (scope : Scope) : Passed scope part cs := by
  -- The stack is general in every part: what is inside a bracket has one more
  -- on it.
  induction h with
  | @word cs h =>
    refine ⟨?_, passes_word h⟩
    simp only [words, List.mem_cons, List.not_mem_nil, or_false] at h
    rcases h with rfl | rfl | rfl <;> exact ⟨_, _, rfl, by decide⟩
  | @text cs h => exact ⟨⟨_, _, rfl, by decide⟩, passes_text h⟩
  | @positive cs h =>
    obtain ⟨b, tail, hbytes, hb⟩ := h.begins
    refine ⟨⟨b, tail, hbytes, Value.isSpace_of_isDigit hb, ?_, ?_⟩,
      passes_positive h⟩
    · exact Value.ne_of_isDigit hb (by decide)
    · exact Value.ne_of_isDigit hb (by decide)
  | @negative cs h => exact ⟨⟨_, _, rfl, by decide⟩, passes_negative h⟩
  | @enclosed k es w h hw ih =>
    exact ⟨⟨byte k.opening, _, encode_opening k _, beginsElement_opening k⟩,
      passes_enclosed ih hw⟩
  | @item v h ih => exact ⟨ih.1, fun stack => ih.2 _⟩
  | @member key w w' v hk hw hw' h ih =>
    exact ⟨⟨_, _, rfl, by decide⟩,
      fun stack => passes_member hk hw hw' (ih.2 _)⟩
  | @none k first =>
    cases first with
    | true => exact .inl rfl
    | false => exact fun stack =>
      ⟨0, Nat.le_refl 0, fun n rest _ => by rw [Nat.zero_add]; rfl⟩
  | @some k first l e es hl h hs ih ihs =>
    have hbehind : ∀ stack,
        Passes scope (skipElement k · stack) (skipAfter · (k :: stack))
          (e ++ es) :=
      fun stack => (ih.2 stack).append (ihs stack) fun rest => hs.apart
    have hbegins : Begins (Text.encode (e ++ es)) := by
      rw [Text.encode_append]
      exact ih.1.append _
    cases hl with
    | first hw => exact .inr ⟨l, e ++ es, rfl, hw, hbegins, hbehind⟩
    | @next w w' hw hw' =>
      intro stack
      obtain ⟨m, hm, hpass⟩ := hbehind stack
      have hl : Lead false (w ++ ',' :: w') := .next hw hw'
      refine ⟨m + 1, ?_, fun n rest hrest => ?_⟩
      · have := hl.length_pos
        rw [List.length_append]
        omega
      · rw [Text.encode_append, List.append_assoc, Nat.add_right_comm]
        show skipAfter (m + n + 1) _ _ _ = _
        rw [skipAfter_comma hl]
        exact hpass n rest hrest

/-- A value that nobody wants is passed over, with the blanks before it. -/
theorem Written.skip {w v : List Char} (h : Written .value v) (hw : Blank w)
    {scope : Scope} (hturns : v.length ≤ scope.turns) {rest : List UInt8}
    (hrest : Apart rest) :
    skip scope (Text.encode w ++ (Text.encode v ++ rest)) = .ok ((), rest) := by
  obtain ⟨m, hm, hpass⟩ := (h.passed scope).2 []
  have hsplit : 2 * scope.turns = m + (2 * scope.turns - m) := by omega
  rw [Reader.skip, hsplit, skipValue_blank hw]
  refine (hpass _ _ hrest).trans ?_
  cases 2 * scope.turns - m <;> rfl

end ResourceHost.Json
