import LotBridge.Proofs.JsonMaps

/-!
# Numbers as a reader stores them

A reader keeps an integer exact when it fits 64 bits: as a natural when it is
not below zero, as a negative integer when it is. So every number a reader
stores as negative is below zero (`Number.Stored`), in every node it reads
(`Node.Stored`) and in every value read back from such a node. A value whose
numbers are all stored so and none of them a float reads back from its text
(`exact_of_numbers`).

## Main statements

* `stored_readDocument`: every number of a text's tree is stored so.
* `mem_numbers_of_toJson`: a value read from a node holds only the node's
  numbers.
* `exact_of_numbers`.
-/

namespace LotBridge.Json

/-- A number as a reader stores it: one stored as negative is below zero. -/
def Number.Stored : Number → Prop
  | .negative n => n.toInt < 0
  | _ => True

/-- Whether a number is a binary64 float. -/
def Number.isFloat : Number → Bool
  | .float _ => true
  | _ => false

/-! ## The numbers of nodes and values -/

mutual

/-- The numbers of a node, in reading order. -/
def Node.numbers : Node → List Number
  | .number (.ok m) _ _ => [m]
  | .array _ items _ => Node.itemsNumbers items
  | .object _ members _ => Node.membersNumbers members
  | _ => []

/-- The numbers of array elements. -/
def Node.itemsNumbers : List Node → List Number
  | [] => []
  | n :: rest => n.numbers ++ Node.itemsNumbers rest

/-- The numbers of object members. -/
def Node.membersNumbers : List (Option Key × Node) → List Number
  | [] => []
  | (_, n) :: rest => n.numbers ++ Node.membersNumbers rest

end

mutual

/-- The numbers of a value, in writing order. -/
def numbers : Json → List Number
  | .number m => [m]
  | .array items => itemsNumbers items
  | .object fields => fieldsNumbers fields
  | _ => []

/-- The numbers of array elements. -/
def itemsNumbers : List Json → List Number
  | [] => []
  | j :: rest => numbers j ++ itemsNumbers rest

/-- The numbers of member values. -/
def fieldsNumbers : List (String × Json) → List Number
  | [] => []
  | (_, j) :: rest => numbers j ++ fieldsNumbers rest

end

theorem Node.itemsNumbers_eq (ns : List Node) : Node.itemsNumbers ns = ns.flatMap Node.numbers := by
  induction ns with
  | nil => rfl
  | cons n ns ih => simp [Node.itemsNumbers, ih]

theorem Node.membersNumbers_eq (ms : List (Option Key × Node)) :
    Node.membersNumbers ms = ms.flatMap (·.2.numbers) := by
  induction ms with
  | nil => rfl
  | cons kn ms ih =>
    obtain ⟨k, n⟩ := kn
    simp [Node.membersNumbers, ih]

theorem itemsNumbers_eq (xs : List Json) : itemsNumbers xs = xs.flatMap numbers := by
  induction xs with
  | nil => rfl
  | cons x xs ih => simp [itemsNumbers, ih]

theorem fieldsNumbers_eq (fs : List (String × Json)) : fieldsNumbers fs = fs.flatMap (·.2.numbers) := by
  induction fs with
  | nil => rfl
  | cons kv fs ih =>
    obtain ⟨k, j⟩ := kv
    simp [fieldsNumbers, ih]

mutual

theorem numbers_forget : ∀ n : Node, n.forget.numbers = n.numbers
  | .null _ _ | .bool _ _ _ | .string _ _ _ | .broken _ _ => rfl
  | .number v _ _ => by cases v <;> rfl
  | .array _ items _ => by
    simp only [Node.forget, Node.numbers]
    exact itemsNumbers_forget items
  | .object _ members _ => by
    simp only [Node.forget, Node.numbers]
    exact membersNumbers_forget members

theorem itemsNumbers_forget :
    ∀ ns : List Node, Node.itemsNumbers (Node.forgetItems ns) = Node.itemsNumbers ns
  | [] => rfl
  | n :: ns => by
    simp only [Node.forgetItems, Node.itemsNumbers, numbers_forget n, itemsNumbers_forget ns]

theorem membersNumbers_forget : ∀ ms : List (Option Key × Node),
    Node.membersNumbers (Node.forgetMembers ms) = Node.membersNumbers ms
  | [] => rfl
  | (_, n) :: ms => by
    simp only [Node.forgetMembers, Node.membersNumbers, numbers_forget n, membersNumbers_forget ms]

end

mutual

/-- A value read from a node holds only numbers of the node: reading back
drops members, it makes no numbers. -/
theorem mem_numbers_of_toJson : ∀ (n : Node) (j : Json), n.toJson = .ok j →
    ∀ m ∈ j.numbers, m ∈ n.numbers
  | .null _ _, _, h, _, hm | .bool _ _ _, _, h, _, hm | .string (.ok _) _ _, _, h, _, hm => by
    cases h
    simp [numbers] at hm
  | .number (.ok _) _ _, _, h, _, hm => by
    cases h
    exact hm
  | .number (.error _) _ _, _, h, _, _ | .string (.error _) _ _, _, h, _, _
  | .broken _ _, _, h, _, _ => by cases h
  | .array _ items _, _, h, m, hm => by
    obtain ⟨js, hjs, rfl⟩ := map_eq_ok.1 h
    exact mem_itemsNumbers_of_itemsToJson items js hjs m hm
  | .object _ members _, _, h, m, hm => by
    obtain ⟨ps, hps, rfl⟩ := map_eq_ok.1 h
    -- a member `ofPairs` keeps is one of the members read
    have hm : m ∈ fieldsNumbers (Fields.ofPairs ps) := hm
    rw [fieldsNumbers_eq, List.mem_flatMap] at hm
    obtain ⟨kv, hkv, hmkv⟩ := hm
    have hm' : m ∈ fieldsNumbers ps := by
      rw [fieldsNumbers_eq, List.mem_flatMap]
      exact ⟨kv, Fields.mem_ofPairs hkv, hmkv⟩
    exact mem_membersNumbers_of_membersToJson members ps hps m hm'

theorem mem_itemsNumbers_of_itemsToJson : ∀ (ns : List Node) (js : List Json),
    Node.itemsToJson ns = .ok js → ∀ m ∈ itemsNumbers js, m ∈ Node.itemsNumbers ns
  | [], _, h, _, hm => by
    cases h
    simp [itemsNumbers] at hm
  | n :: ns, _, h, m, hm => by
    obtain ⟨j, hj, h⟩ := bind_eq_ok.1 h
    obtain ⟨js', hjs', h⟩ := bind_eq_ok.1 h
    cases h
    simp only [itemsNumbers, List.mem_append] at hm
    simp only [Node.itemsNumbers, List.mem_append]
    rcases hm with hm | hm
    · exact .inl (mem_numbers_of_toJson n j hj m hm)
    · exact .inr (mem_itemsNumbers_of_itemsToJson ns js' hjs' m hm)

theorem mem_membersNumbers_of_membersToJson : ∀ (ms : List (Option Key × Node))
    (ps : List (String × Json)), Node.membersToJson ms = .ok ps →
    ∀ m ∈ fieldsNumbers ps, m ∈ Node.membersNumbers ms
  | [], _, h, _, hm => by
    cases h
    simp [fieldsNumbers] at hm
  | (none, _) :: _, _, h, _, _ | (some ⟨.error _, _, _⟩, _) :: _, _, h, _, _ => by cases h
  | (some ⟨.ok _, _, _⟩, n) :: ms, _, h, m, hm => by
    obtain ⟨j, hj, h⟩ := bind_eq_ok.1 h
    obtain ⟨ps', hps', h⟩ := bind_eq_ok.1 h
    cases h
    simp only [fieldsNumbers, List.mem_append] at hm
    simp only [Node.membersNumbers, List.mem_append]
    rcases hm with hm | hm
    · exact .inl (mem_numbers_of_toJson n j hj m hm)
    · exact .inr (mem_membersNumbers_of_membersToJson ms ps' hps' m hm)

end

mutual

/-- A value whose numbers are all stored as a reader stores them and none of
them a float reads back from its text. -/
theorem exact_of_numbers : ∀ j : Json, (∀ m ∈ j.numbers, m.Stored ∧ m.isFloat = false) → Exact j
  | .null, _ | .bool _, _ | .string _, _ => trivial
  | .number (.natural _), _ => trivial
  | .number (.negative _), h => (h _ (List.mem_singleton_self _)).1
  | .number (.float _), h => by simpa [Number.isFloat] using (h _ (List.mem_singleton_self _)).2
  | .array xs, h => exactItems_of_numbers xs h
  | .object fs, h => exactFields_of_numbers fs h

theorem exactItems_of_numbers :
    ∀ xs : List Json, (∀ m ∈ itemsNumbers xs, m.Stored ∧ m.isFloat = false) → ExactItems xs
  | [], _ => trivial
  | x :: xs, h =>
    ⟨exact_of_numbers x fun m hm => h m (List.mem_append_left _ hm),
      exactItems_of_numbers xs fun m hm => h m (List.mem_append_right _ hm)⟩

theorem exactFields_of_numbers : ∀ fs : List (String × Json),
    (∀ m ∈ fieldsNumbers fs, m.Stored ∧ m.isFloat = false) → ExactFields fs
  | [], _ => trivial
  | (_, j) :: fs, h =>
    ⟨exact_of_numbers j fun m hm => h m (List.mem_append_left _ hm),
      exactFields_of_numbers fs fun m hm => h m (List.mem_append_right _ hm)⟩

end

/-! ## Nodes the reader builds -/

/-- Every number of a node is stored as a reader stores it. -/
def Node.Stored (n : Node) : Prop := ∀ m ∈ n.numbers, m.Stored

@[simp] theorem Node.stored_null (a b : Pos) : (Node.null a b).Stored := by
  simp [Node.Stored, Node.numbers]

@[simp] theorem Node.stored_bool (v : Bool) (a b : Pos) : (Node.bool v a b).Stored := by
  simp [Node.Stored, Node.numbers]

@[simp] theorem Node.stored_string (s : Except Located String) (a b : Pos) :
    (Node.string s a b).Stored := by
  simp [Node.Stored, Node.numbers]

@[simp] theorem Node.stored_broken (s l : Located) : (Node.broken s l).Stored := by
  simp [Node.Stored, Node.numbers]

@[simp] theorem Node.stored_fail (f : Fault) (p : Pos) : (Node.fail f p).Stored :=
  Node.stored_broken _ _

@[simp] theorem Node.stored_number_error (l : Located) (a b : Pos) :
    (Node.number (.error l) a b).Stored := by
  simp [Node.Stored, Node.numbers]

@[simp] theorem Node.stored_number_ok (m : Number) (a b : Pos) :
    (Node.number (.ok m) a b).Stored ↔ m.Stored := by
  simp [Node.Stored, Node.numbers]

@[simp] theorem Node.stored_array (s : Pos) (items : List Node) (f : Option Pos) :
    (Node.array s items f).Stored ↔ ∀ n ∈ items, n.Stored := by
  simp only [Node.Stored, Node.numbers, Node.itemsNumbers_eq, List.mem_flatMap]
  constructor
  · intro h n hn m hm
    exact h m ⟨n, hn, hm⟩
  · rintro h m ⟨n, hn, hm⟩
    exact h n hn m hm

@[simp] theorem Node.stored_object (s : Pos) (ms : List (Option Key × Node)) (f : Option Pos) :
    (Node.object s ms f).Stored ↔ ∀ kn ∈ ms, kn.2.Stored := by
  simp only [Node.Stored, Node.numbers, Node.membersNumbers_eq, List.mem_flatMap]
  constructor
  · intro h kn hkn m hm
    exact h m ⟨kn, hkn, hm⟩
  · rintro h m ⟨kn, hkn, hm⟩
    exact h kn hkn m hm

theorem Node.stored_array_snoc {s : Pos} {items : List Node} {n : Node} {f : Option Pos}
    (hitems : ∀ x ∈ items, x.Stored) (hn : n.Stored) : (Node.array s (items ++ [n]) f).Stored :=
  (Node.stored_array _ _ _).2 (List.forall_mem_append.2 ⟨hitems, List.forall_mem_singleton.2 hn⟩)

theorem Node.stored_object_snoc {s : Pos} {ms : List (Option Key × Node)} {k : Option Key}
    {n : Node} {f : Option Pos} (hms : ∀ kn ∈ ms, kn.2.Stored) (hn : n.Stored) :
    (Node.object s (ms ++ [(k, n)]) f).Stored :=
  (Node.stored_object _ _ _).2 (List.forall_mem_append.2 ⟨hms, List.forall_mem_singleton.2 hn⟩)

/-- A broken node holds no number. -/
theorem Node.stored_of_isBroken {n : Node} (h : n.isBroken = true) : n.Stored := by
  cases n <;> simp_all [Node.isBroken]

theorem stored_toFloat (m : Mantissa) (p a b : Pos) : (Node.number (m.toFloat p) a b).Stored := by
  unfold Mantissa.toFloat
  split <;> simp [Number.Stored]

/-- A negative integer is stored as one only when it fits, and then it is below
zero. -/
theorem stored_integerNumber (positive : Bool) (sig : Nat) : (integerNumber positive sig).Stored := by
  unfold integerNumber
  split_ifs with hpos hout
  · trivial
  · trivial
  · have hlo : -2 ^ 63 ≤ -(sig : Int) := by omega
    show (Int64.ofInt (-(sig : Int))).toInt < 0
    rw [Int64.toInt_ofInt_of_le hlo (by omega)]
    omega

theorem stored_readExponent (start : Pos) (m : Mantissa) (c : Cursor) :
    (readExponent start m c).1.Stored := by
  fun_cases readExponent start m c
  case case3 => exact stored_toFloat _ _ _ _
  all_goals simp [Number.Stored]

theorem stored_readFraction (start : Pos) (m : Mantissa) (c : Cursor) :
    (readFraction start m c).1.Stored := by
  fun_cases readFraction start m c
  case case1 => simp
  case case2 | case3 => exact stored_readExponent _ _ _
  case case4 => exact stored_toFloat _ _ _ _

theorem stored_readAfterInteger (start : Pos) (m : Mantissa) (long : Bool) (c : Cursor) :
    (readAfterInteger start m long c).1.Stored := by
  fun_cases readAfterInteger start m long c
  case case1 => exact stored_readFraction _ _ _
  case case2 | case3 => exact stored_readExponent _ _ _
  case case4 => exact stored_toFloat _ _ _ _
  case case5 => exact (Node.stored_number_ok _ _ _).2 (stored_integerNumber _ _)

theorem stored_readNumber (c : Cursor) : (readNumber c).1.Stored := by
  fun_cases readNumber c
  all_goals first
    | exact stored_readAfterInteger _ _ _ _
    | simp

theorem stored_readString (start : Pos) (c : Cursor) : (readString start c).1.Stored := by
  fun_cases readString start c <;> simp

section Reader

variable {fuel : Nat}

/-- The value reader keeps every number stored, given that the array and
object readers it calls one level down do. -/
theorem stored_readValue (hItems : ∀ start c, (readItems fuel start [] true c).1.Stored)
    (hMembers : ∀ start c, (readMembers fuel start [] true c).1.Stored) (c : Cursor) :
    (readValue (fuel + 1) c).1.Stored := by
  rw [readValue]
  split
  next => simp
  next =>
    split_ifs
    -- a word that breaks off, or `null`, `true` or `false`
    · dsimp only
      split <;> simp
    · dsimp only
      split <;> simp
    · dsimp only
      split <;> simp
    · exact stored_readNumber _
    · exact stored_readString _ _
    · exact hItems _ _
    · exact hMembers _ _
    · simp

/-- The array reader keeps every number stored: the elements read so far and
each element the value reader adds. -/
theorem stored_readItems (hValue : ∀ k c n c', readValue k c = (n, c') → k < fuel → n.Stored)
    (hItems : ∀ k < fuel, ∀ start acc first c, (∀ n ∈ acc, n.Stored) →
      (readItems k start acc first c).1.Stored)
    (start : Pos) (acc : List Node) (first : Bool) (c : Cursor) (hacc : ∀ n ∈ acc, n.Stored) :
    (readItems fuel start acc first c).1.Stored := by
  fun_cases readItems fuel start acc first c
  case case3 => exact (Node.stored_array _ _ _).2 hacc
  case case4 | case8 =>
    -- a broken element ends the array, and holds no number
    exact Node.stored_array_snoc hacc (Node.stored_of_isBroken (by assumption))
  case case5 | case9 =>
    -- a whole element joins the elements read so far
    have hitem := hValue _ _ _ _ (by assumption) (by omega)
    exact hItems _ (by omega) _ _ _ _
      (List.forall_mem_append.2 ⟨hacc, List.forall_mem_singleton.2 hitem⟩)
  -- every other way out adds a broken element
  all_goals exact Node.stored_array_snoc hacc (by simp)

theorem stored_readMembers (hValue : ∀ k c n c', readValue k c = (n, c') → k < fuel → n.Stored)
    (hMembers : ∀ k < fuel, ∀ start acc first c, (∀ kn ∈ acc, kn.2.Stored) →
      (readMembers k start acc first c).1.Stored)
    (start : Pos) (acc : List (Option Key × Node)) (first : Bool) (c : Cursor)
    (hacc : ∀ kn ∈ acc, kn.2.Stored) :
    (readMembers fuel start acc first c).1.Stored := by
  fun_cases readMembers fuel start acc first c
  case case3 => exact (Node.stored_object _ _ _).2 hacc
  case case4 | case7 =>
    -- a member: a key, a colon and a value; only the value may hold numbers
    dsimp +zetaDelta only
    split
    next =>
      split
      next => exact Node.stored_object_snoc hacc (by simp)
      next =>
        split
        next =>
          split
          next => exact Node.stored_object_snoc hacc (Node.stored_of_isBroken (by assumption))
          next =>
            exact hMembers _ (by omega) _ _ _ _
              (List.forall_mem_append.2 ⟨hacc, List.forall_mem_singleton.2 (hValue _ _ _ _ rfl (by omega))⟩)
        -- no colon after the key
        next => exact Node.stored_object_snoc hacc (by simp)
        next => exact Node.stored_object_snoc hacc (by simp)
      next => exact Node.stored_object_snoc hacc (by simp)
    next => exact Node.stored_object_snoc hacc (by simp)
  all_goals exact Node.stored_object_snoc hacc (by simp)

end Reader

/-- Every number the reader stores, at any depth and with any fuel, is stored
as a reader stores it. The induction is on the fuel, which each level of
nesting uses up. -/
theorem stored_read (fuel : Nat) :
    (∀ c, (readValue fuel c).1.Stored) ∧
    (∀ start acc first c, (∀ n ∈ acc, n.Stored) → (readItems fuel start acc first c).1.Stored) ∧
    (∀ start acc first c, (∀ kn ∈ acc, kn.2.Stored) →
      (readMembers fuel start acc first c).1.Stored) := by
  induction fuel using Nat.strong_induction_on with
  | _ fuel ih =>
    have hValue : ∀ k c n c', readValue k c = (n, c') → k < fuel → n.Stored := by
      intro k c n c' hv hk
      have hread := (ih k hk).1 c
      rwa [hv] at hread
    refine ⟨fun c => ?_, stored_readItems hValue (fun k hk => (ih k hk).2.1),
      stored_readMembers hValue (fun k hk => (ih k hk).2.2)⟩
    cases fuel with
    | zero => simp [readValue]
    | succ fuel =>
      have hlt : fuel < fuel + 1 := Nat.lt_succ_self fuel
      exact stored_readValue (fun start c => (ih fuel hlt).2.1 start [] true c (by simp))
        (fun start c => (ih fuel hlt).2.2 start [] true c (by simp)) c

/-- Every number of a text's tree is stored as a reader stores it. -/
theorem stored_readDocument (text : String) : (readDocument text).root.Stored := by
  simp only [readDocument]
  exact (stored_read _).1 _

end LotBridge.Json
