import ResourceHost.Proofs.Json.Blanks

/-!
# Arrays and objects, read

Items stand between brackets, and members between braces, with commas between
them and blanks anywhere.  They are read one after another if each of them is,
whatever reads them.
-/

namespace ResourceHost.Json

open Reader

/-! ### Grammar -/

section

variable {α : Type}

/-- The texts of some things inside brackets, from the first of them or from a
later one, where `V` tells the texts of each. -/
inductive Listed (V : List Char → α → Prop) :
    (first : Bool) → List Char → List α → Prop where
  | none {first : Bool} : Listed V first [] []
  | some {first : Bool} {l v cs : List Char} {a : α} {as : List α}
      (hl : Lead first l) (hv : V v a) (h : Listed V false cs as) :
      Listed V first (l ++ (v ++ cs)) (a :: as)

/-- A member: a key in any spelling, a colon, and behind it what `V` tells. -/
inductive MemberOf (V : List Char → α → Prop) :
    List Char → String × α → Prop where
  | member {key : String} {k w v : List Char} {a : α} (hk : Spells k key.toList)
      (hw : Blank w) (hv : V v a) : MemberOf V (memberText k w [] v) (key, a)

/-- Blanks may stand in front. -/
inductive Behind (V : List Char → α → Prop) : List Char → α → Prop where
  | blanks {w v : List Char} {a : α} (hw : Blank w) (hv : V v a) :
      Behind V (w ++ v) a

/-- A text with its quotes. -/
inductive TextOf : List Char → String → Prop where
  | quoted {cs : List Char} {s : String} (h : Spells cs s.toList) :
      TextOf ('"' :: (cs ++ ['"'])) s

/-- An array of items. -/
inductive ArrayOf (V : List Char → α → Prop) : List Char → List α → Prop where
  | array {cs w : List Char} {as : List α} (h : Listed V true cs as)
      (hw : Blank w) : ArrayOf V ('[' :: (cs ++ w ++ [']'])) as

/-- An object, its members in the order of the text. -/
inductive ObjectOf (V : List Char → α → Prop) :
    List Char → List (String × α) → Prop where
  | object {cs w : List Char} {ms : List (String × α)}
      (h : Listed (MemberOf (Behind V)) true cs ms) (hw : Blank w) :
      ObjectOf V ('\x7b' :: (cs ++ w ++ ['\x7d'])) ms

/-- A whole text, with blanks around it. -/
inductive Alone (V : List Char → α → Prop) : List Char → α → Prop where
  | blanks {v w : List Char} {a : α} (hv : Behind V v a) (hw : Blank w) :
      Alone V (v ++ w) a

variable {V V' : List Char → α → Prop} {first : Bool} {cs : List Char}
  {as : List α}

theorem Listed.mono (h : Listed V first cs as)
    (hV : ∀ v a, v.length ≤ cs.length → V v a → V' v a) :
    Listed V' first cs as := by
  induction h with
  | none => exact .none
  | @some first l v cs a as hl hv h ih =>
    simp only [List.length_append] at hV
    exact .some hl (hV v a (by omega) hv) (ih fun v a hle => hV v a (by omega))

/-- There are at least as many characters as things. -/
theorem Listed.length_le (h : Listed V first cs as)
    (hne : ∀ v a, V v a → v ≠ []) : as.length ≤ cs.length := by
  induction h with
  | none => exact Nat.zero_le _
  | @some first l v cs a as hl hv h ih =>
    have hpos := List.length_pos_iff.2 (hne v a hv)
    rw [List.length_cons, List.length_append, List.length_append]
    omega

end

/-! ### Bytes of tokens -/

namespace Reader

theorem encode_enclosed {opening closing : Char} (h : opening.toNat < 128)
    (h' : closing.toNat < 128) (inside : List Char) (rest : List UInt8) :
    Text.encode (opening :: inside ++ [closing]) ++ rest =
      byte opening :: (Text.encode inside ++ byte closing :: rest) := by
  rw [Text.encode_append, encode_ascii_cons h, encode_ascii_cons h',
    List.append_assoc]
  rfl

theorem encode_memberText (key w w' v : List Char) (rest : List UInt8) :
    Text.encode (memberText key w w' v) ++ rest =
      byte '"' :: (Text.encode key ++ byte '"' ::
        (Text.encode w ++ byte ':' ::
          (Text.encode w' ++ (Text.encode v ++ rest)))) := by
  rw [memberText, encode_ascii_cons (c := '"') (by decide), Text.encode_append,
    encode_ascii_cons (c := '"') (by decide), Text.encode_append,
    encode_ascii_cons (c := ':') (by decide), Text.encode_append]
  simp only [List.cons_append, List.append_assoc]

/-! ### Between the tokens -/

variable {α : Type} {scope : Scope} {s rest : List UInt8} {w : List Char}
  {first : Bool}

/-- The bytes begin with neither space nor a closing bracket, as the text of
any value does. -/
def Opens (s : List UInt8) : Prop :=
  ∃ b tail, s = b :: tail ∧ isSpace b = false ∧ b ≠ byte ']'

theorem Opens.append (h : Opens s) (rest : List UInt8) : Opens (s ++ rest) := by
  obtain ⟨b, tail, rfl, hspace, hb⟩ := h
  exact ⟨b, tail ++ rest, rfl, hspace, hb⟩

theorem another_lead {l : List Char} (hl : Lead first l) (h : Opens s) :
    another first scope (Text.encode l ++ s) = .ok (true, s) := by
  obtain ⟨b, tail, rfl, hspace, hb⟩ := h
  cases hl with
  | first hw =>
    rw [another, look_blank_bind hw hspace]
    dsimp only
    rw [if_neg (mt eq_of_beq hb)]
    rfl
  | @next w w' hw hw' =>
    rw [Text.encode_append, List.append_assoc,
      encode_ascii_cons (c := ',') (by decide), List.cons_append, another,
      look_blank_bind hw (by decide)]
    dsimp only
    rw [if_neg (by decide), if_neg Bool.false_ne_true,
      if_pos (beq_self_eq_true _), next_bind, look_blank_bind hw' hspace]
    dsimp only
    rw [if_neg (mt eq_of_beq hb)]
    rfl

theorem another_bracket (hw : Blank w) (first : Bool) (s : List UInt8) :
    another first scope (Text.encode w ++ byte ']' :: s) =
      .ok (false, byte ']' :: s) := by
  rw [another, look_blank_bind hw (by decide)]
  rfl

/-- The text is taken as `a`, whatever stands behind it.  Only what a number
could go on with may not stand there. -/
def Reads (r : Reader α) (scope : Scope) (text : List Char) (a : α) : Prop :=
  ∀ rest, Apart rest → r scope (Text.encode text ++ rest) = .ok (a, rest)

theorem Reads.unique {r : Reader α} {text : List Char} {a b : α}
    (ha : Reads r scope text a) (hb : Reads r scope text b) : a = b := by
  have h := (ha [] apart_nil).symm.trans (hb [] apart_nil)
  exact (Prod.mk.inj (Except.ok.inj h)).1

/-- A whole text that is the text of `a`, with nothing but blanks behind it. -/
theorem run_of_reads_blank {r : Reader α} {v : List Char} {a : α} (hw : Blank w)
    (h : Reads r ⟨(Text.encode (v ++ w)).length + 1, maxDepth⟩ v a) :
    run r (Text.toBytes (String.ofList (v ++ w))) = .ok a := by
  have hapart : Apart (Text.encode w) := by
    simpa using hw.apart apart_nil
  have hspace : (Text.encode w).dropWhile isSpace = [] := by
    simpa using hw.dropWhile []
  have hread := h _ hapart
  rw [← Text.encode_append] at hread
  rw [Text.toBytes_ofList, run, hread]
  dsimp only
  rw [hspace]
  rfl

/-- A whole text that is the text of `a` and nothing else. -/
theorem run_of_reads {r : Reader α} {v : List Char} {a : α}
    (h : Reads r ⟨(Text.encode v).length + 1, maxDepth⟩ v a) :
    run r (Text.toBytes (String.ofList v)) = .ok a := by
  have hrun := run_of_reads_blank (r := r) (v := v) (a := a) blank_nil
  rw [List.append_nil] at hrun
  exact hrun h

/-! ### Items and members -/

theorem Listed.apart {V : List Char → α → Prop} {cs : List Char} {as : List α}
    (h : Listed V false cs as) (hrest : Apart rest) :
    Apart (Text.encode cs ++ rest) := by
  cases h with
  | none => exact hrest
  | @some _ l v cs a as hl hv h =>
    rw [Text.encode_append, List.append_assoc]
    exact hl.apart _

/-- An item is read from the text. -/
structure ReadsItem (item : Reader α) (scope : Scope) (text : List Char)
    (a : α) : Prop where
  opens : Opens (Text.encode text)
  reads : Reads item scope text a

-- By induction on the items that are left.  There is a turn for each of them,
-- and one more for the bracket.
theorem items_listed {item : Reader α} {cs : List Char} {as : List α}
    (h : Listed (ReadsItem item scope) first cs as) (hw : Blank w) :
    ∀ turns done, as.length < turns → done.isEmpty = first →
      items item turns done scope (Text.encode cs ++
          (Text.encode w ++ byte ']' :: rest)) =
        .ok (done.reverse ++ as, byte ']' :: rest) := by
  induction h with
  | none =>
    intro turns done hturns hdone
    obtain ⟨n, rfl⟩ := Nat.exists_eq_succ_of_ne_zero (Nat.ne_of_gt hturns)
    show items item (n + 1) done scope (Text.encode w ++ byte ']' :: rest) = _
    rw [items, bind_of_ok (another_bracket hw _ rest),
      if_neg Bool.false_ne_true, List.append_nil]
    rfl
  | @some first l v cs a as hl hv h ih =>
    intro turns done hturns hdone
    obtain ⟨n, rfl⟩ := Nat.exists_eq_succ_of_ne_zero (n := turns) (by omega)
    have hapart : Apart (Text.encode cs ++
        (Text.encode w ++ byte ']' :: rest)) :=
      Listed.apart h (hw.apart (apart_cons (by decide) _))
    rw [Text.encode_append, Text.encode_append, List.append_assoc,
      List.append_assoc, items, hdone,
      bind_of_ok (another_lead hl (hv.opens.append _)), if_pos rfl,
      bind_of_ok (hv.reads _ hapart),
      ih n (a :: done) (Nat.lt_of_succ_lt_succ hturns) rfl, List.reverse_cons,
      List.append_assoc]
    rfl

theorem members_listed {value : Reader α} {cs : List Char}
    {ms : List (String × α)}
    (h : Listed (MemberOf (Reads value scope)) first cs ms) (hw : Blank w) :
    ∀ turns done, ms.length < turns → done.isEmpty = first →
      members value turns done scope (Text.encode cs ++
          (Text.encode w ++ byte '\x7d' :: rest)) =
        .ok (done.reverse ++ ms, byte '\x7d' :: rest) := by
  induction h with
  | none =>
    intro turns done hturns hdone
    obtain ⟨n, rfl⟩ := Nat.exists_eq_succ_of_ne_zero (Nat.ne_of_gt hturns)
    show members value (n + 1) done scope
      (Text.encode w ++ byte '\x7d' :: rest) = _
    rw [members, bind_of_ok (anotherKey_brace hw _ rest), List.append_nil]
    rfl
  | @some first l v cs m ms hl hv h ih =>
    intro turns done hturns hdone
    obtain ⟨n, rfl⟩ := Nat.exists_eq_succ_of_ne_zero (n := turns) (by omega)
    have hapart : Apart (Text.encode cs ++
        (Text.encode w ++ byte '\x7d' :: rest)) :=
      Listed.apart h (hw.apart (apart_cons (by decide) _))
    cases hv with
    | @member key k w₀ v a hk hw₀ hv =>
      rw [Text.encode_append, Text.encode_append, List.append_assoc,
        List.append_assoc, encode_memberText, members, hdone,
        bind_of_ok (anotherKey_lead hl hk _)]
      dsimp only
      rw [bind_of_ok (colon_blank hw₀ _), Text.encode_nil, List.nil_append,
        bind_of_ok (hv _ hapart),
        ih n ((key, a) :: done) (Nat.lt_of_succ_lt_succ hturns) rfl,
        List.reverse_cons, List.append_assoc]
      rfl

variable {turns d : Nat} {cs : List Char}

/-- What is inside an array is read to the bracket that closes it. -/
theorem insideArray_listed {item : Reader α} {as : List α}
    (h : Listed (ReadsItem item ⟨turns, d⟩) true cs as) (hw : Blank w)
    (hturns : as.length < turns) (rest : List UInt8) :
    insideArray item ⟨turns, d + 1⟩ (Text.encode cs ++
        (Text.encode w ++ byte ']' :: rest)) =
      .ok (as, rest) := by
  have hnested : nested (fun scope s => items item scope.turns [] scope s)
      ⟨turns, d + 1⟩
      (Text.encode cs ++ (Text.encode w ++ byte ']' :: rest)) =
        .ok (as, byte ']' :: rest) :=
    items_listed h hw turns [] hturns rfl
  rw [insideArray, bind_of_ok hnested]
  rfl

/-- What is inside an object is read to the brace that closes it. -/
theorem insideObject_listed {value : Reader α} {ms : List (String × α)}
    (h : Listed (MemberOf (Reads value ⟨turns, d⟩)) true cs ms) (hw : Blank w)
    (hturns : ms.length < turns) (rest : List UInt8) :
    insideObject value ⟨turns, d + 1⟩ (Text.encode cs ++
        (Text.encode w ++ byte '\x7d' :: rest)) =
      .ok (ms, rest) := by
  have hnested : nested (fun scope s => members value scope.turns [] scope s)
      ⟨turns, d + 1⟩
      (Text.encode cs ++ (Text.encode w ++ byte '\x7d' :: rest)) =
        .ok (ms, byte '\x7d' :: rest) :=
    members_listed h hw turns [] hturns rfl
  rw [insideObject, bind_of_ok hnested]
  rfl

/-! ### Readers of a grammar -/

/-- A text with its quotes. -/
theorem encode_quoted (cs : List Char) (rest : List UInt8) :
    Text.encode ('"' :: (cs ++ ['"'])) ++ rest =
      byte '"' :: (Text.encode cs ++ byte '"' :: rest) :=
  encode_enclosed (by decide) (by decide) cs rest

theorem text_spells {cs : List Char} {s : String} (hw : Blank w)
    (h : Spells cs s.toList) (rest : List UInt8) :
    text scope (Text.encode w ++ (Text.encode ('"' :: (cs ++ ['"'])) ++ rest)) =
      .ok (s, rest) := by
  rw [encode_quoted, text, beginning, look_blank_bind hw (by decide)]
  dsimp only
  rw [if_pos (beq_self_eq_true _), next_bind, textTail_spells h]

/-- The reader takes each text that `V` tells for what it tells, with blanks in
front of it, if it may enter as many arrays and objects as there may be inside
each other. -/
structure Follows (r : Reader α) (depth : Nat) (V : List Char → α → Prop) :
    Prop where
  opens : ∀ {v a}, V v a → Opens (Text.encode v)
  reads : ∀ {v a}, V v a → ∀ {turns d}, v.length < turns → depth ≤ d →
    ∀ {w}, Blank w →
    Reads r ⟨turns, d⟩ (w ++ v) a

theorem follows_text : Follows text 0 TextOf where
  opens hv := by
    cases hv with
    | quoted h =>
      exact ⟨byte '"', _, encode_ascii_cons (by decide) _, by decide, by decide⟩
  reads hv turns d _ _ w hw rest _ := by
    cases hv with
    | quoted h =>
      rw [Text.encode_append, List.append_assoc]
      exact text_spells hw h rest

variable {r : Reader α} {depth : Nat} {V : List Char → α → Prop}

theorem Follows.ne_nil (h : Follows r depth V) {v : List Char} {a : α}
    (hv : V v a) : v ≠ [] := by
  rintro rfl
  obtain ⟨b, tail, heq, -⟩ := h.opens hv
  cases heq

theorem Follows.array (h : Follows r depth V) :
    Follows (array r) (depth + 1) (ArrayOf V) where
  opens hv := by
    cases hv with
    | array =>
      exact ⟨byte '[', _, encode_ascii_cons (by decide) _, by decide, by decide⟩
  reads {_ as} hv turns d hturns hd w hw rest _ := by
    cases hv with
    | @array cs w' _ has hw' =>
      obtain ⟨d, rfl⟩ := Nat.exists_eq_succ_of_ne_zero (n := d) (by omega)
      simp only [List.length_cons, List.length_append] at hturns
      have hitems : Listed (ReadsItem r ⟨turns, d⟩) true cs as :=
        has.mono fun v a hle hv =>
        ⟨h.opens hv,
          h.reads hv (by omega) (Nat.le_of_succ_le_succ hd) blank_nil⟩
      have hcount := has.length_le fun v a hv => h.ne_nil hv
      rw [Text.encode_append, List.append_assoc, ← List.cons_append,
        encode_enclosed (by decide) (by decide), Text.encode_append,
        List.append_assoc, Reader.array,
        beginning, look_blank_bind hw (by decide)]
      dsimp only
      rw [if_pos (beq_self_eq_true _), next_bind,
        insideArray_listed hitems hw' (by omega)]

theorem Follows.object (h : Follows r depth V) :
    Follows (object r) (depth + 1) (ObjectOf V) where
  opens hv := by
    cases hv with
    | object =>
      exact ⟨byte '\x7b', _,
        encode_ascii_cons (by decide) _, by decide, by decide⟩
  reads {_ ms} hv turns d hturns hd w hw rest _ := by
    cases hv with
    | @object cs w' _ hms hw' =>
      obtain ⟨d, rfl⟩ := Nat.exists_eq_succ_of_ne_zero (n := d) (by omega)
      simp only [List.length_cons, List.length_append] at hturns
      have hmembers : Listed (MemberOf (Reads r ⟨turns, d⟩)) true cs ms := by
        refine hms.mono fun m a hle hm => ?_
        cases hm with
        | member hk hw₀ hv =>
          cases hv with
          | blanks hw₁ hv =>
            simp only [memberText, List.length_cons, List.length_append] at hle
            exact .member hk hw₀
              (h.reads hv (by omega) (Nat.le_of_succ_le_succ hd) hw₁)
      have hcount := hms.length_le fun m a hm => by
        cases hm
        exact List.cons_ne_nil _ _
      rw [Text.encode_append, List.append_assoc, ← List.cons_append,
        encode_enclosed (by decide) (by decide), Text.encode_append,
        List.append_assoc,
        Reader.object, beginning, look_blank_bind hw (by decide)]
      dsimp only
      rw [if_pos (beq_self_eq_true _), next_bind,
        insideObject_listed hmembers hw' (by omega)]

/-- A whole text is read for what it tells. -/
theorem Follows.run (h : Follows r depth V) (hd : depth ≤ maxDepth)
    {text : List Char} {a : α} (htext : Alone V text a) :
    run r (Text.toBytes (String.ofList text)) = .ok a := by
  cases htext with
  | @blanks u w _ hv hw =>
    cases hv with
    | @blanks w' v _ hw' hv =>
      have hlength := Text.length_le_length_encode (w' ++ v ++ w)
      rw [List.length_append, List.length_append] at hlength
      exact run_of_reads_blank hw (h.reads hv (by omega) hd hw')

end Reader

end ResourceHost.Json
