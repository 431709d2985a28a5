import UtilityCss.Number.Binary64

/-!
# JSON values

A value keeps what its text said: whole numbers that fit 64 bits stay whole, others are binary64
numbers, and the members of an object stand in the order of the text, repeated keys included. Values
are compared by structure. The sorted form of a value has the members of every object in the order of
their keys, the last of several with one key.
-/

namespace UtilityCss

/-- A JSON value. -/
inductive Json where
  | null
  | bool (b : Bool)
  /-- A whole number from `-2 ^ 63` to `2 ^ 64 - 1`. -/
  | int (n : Int)
  | real (x : Binary64)
  | string (s : String)
  | array (items : List Json)
  | object (members : List (String × Json))

namespace Json

instance : Inhabited Json := ⟨null⟩

mutual

/-- Whether two values are the same, member by member. -/
def same : Json → Json → Bool
  | null,      null      => true
  | bool a,    bool b    => a = b
  | int m,     int n     => m = n
  | real x,    real y    => x = y
  | string s,  string t  => s = t
  | array l,   array m   => sameItems l m
  | object l,  object m  => sameMembers l m
  | _,         _         => false

def sameItems : List Json → List Json → Bool
  | [],     []     => true
  | a :: l, b :: m => same a b && sameItems l m
  | _,      _      => false

def sameMembers : List (String × Json) → List (String × Json) → Bool
  | [],          []          => true
  | (k, a) :: l, (k', b) :: m => k = k' && same a b && sameMembers l m
  | _,           _           => false

end

mutual

theorem same_self : ∀ a : Json, same a a = true
  | null      => by simp [same]
  | bool _    => by simp [same]
  | int _     => by simp [same]
  | real _    => by simp [same]
  | string _  => by simp [same]
  | array l   => by simpa [same] using sameItems_self l
  | object l  => by simpa [same] using sameMembers_self l

theorem sameItems_self : ∀ l : List Json, sameItems l l = true
  | []     => by simp [sameItems]
  | a :: l => by simp [sameItems, same_self a, sameItems_self l]

theorem sameMembers_self : ∀ l : List (String × Json), sameMembers l l = true
  | []          => by simp [sameMembers]
  | (k, a) :: l => by simp [sameMembers, same_self a, sameMembers_self l]

end

mutual

theorem eq_of_same : ∀ {a b : Json}, same a b = true → a = b
  | null,     b, h => by cases b <;> simp_all [same]
  | bool _,   b, h => by cases b <;> simp_all [same]
  | int _,    b, h => by cases b <;> simp_all [same]
  | real _,   b, h => by cases b <;> simp_all [same]
  | string _, b, h => by cases b <;> simp_all [same]
  | array l,  b, h => by
    cases b <;> simp only [same, Bool.false_eq_true] at h
    exact congrArg array (eq_of_sameItems h)
  | object l, b, h => by
    cases b <;> simp only [same, Bool.false_eq_true] at h
    exact congrArg object (eq_of_sameMembers h)

theorem eq_of_sameItems : ∀ {l m : List Json}, sameItems l m = true → l = m
  | [],     [],     _ => rfl
  | a :: l, b :: m, h => by
    simp only [sameItems, Bool.and_eq_true] at h
    rw [eq_of_same h.1, eq_of_sameItems h.2]
  | [],     _ :: _, h => by simp [sameItems] at h
  | _ :: _, [],     h => by simp [sameItems] at h

theorem eq_of_sameMembers : ∀ {l m : List (String × Json)}, sameMembers l m = true → l = m
  | [],          [],           _ => rfl
  | (k, a) :: l, (k', b) :: m, h => by
    simp only [sameMembers, Bool.and_eq_true, decide_eq_true_eq] at h
    rw [h.1.1, eq_of_same h.1.2, eq_of_sameMembers h.2]
  | [],     _ :: _, h => by simp [sameMembers] at h
  | _ :: _, [],     h => by simp [sameMembers] at h

end

instance : DecidableEq Json := fun a b =>
  if h : same a b then .isTrue (eq_of_same h)
  else .isFalse fun e => h (e ▸ same_self a)

/-- The members with a value at a key, in the order of the keys; an old value is replaced. -/
def insertMember (k : String) (a : Json) : List (String × Json) → List (String × Json)
  | []     => [(k, a)]
  | m :: l =>
    if k = m.1 then (k, a) :: l
    else if k < m.1 then (k, a) :: m :: l
    else m :: insertMember k a l

/-- The object whose members are in the order of their keys, the last of several with one key. -/
def sortedObject (members : List (String × Json)) : Json :=
  object (members.foldl (fun l m => insertMember m.1 m.2 l) [])

mutual

/-- The sorted form of a value. -/
def sorted : Json → Json
  | array l  => array (sortedItems l)
  | object l => sortedObject (sortedMembers l)
  | a        => a

def sortedItems : List Json → List Json
  | []     => []
  | a :: l => sorted a :: sortedItems l

def sortedMembers : List (String × Json) → List (String × Json)
  | []          => []
  | (k, a) :: l => (k, sorted a) :: sortedMembers l

end

end Json

end UtilityCss
