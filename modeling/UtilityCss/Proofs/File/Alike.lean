import UtilityCss.File.Tree
import UtilityCss.Proofs.Build.Lockstep

/-!
# Trees that differ in heads of texts

Two trees are alike if the same things stand at the same places, except that a file may hold one text
behind the head `a` in one tree and the same text behind the head `b` in the other (`Tree.Alike`). Paths
are followed alike in both, since what a file holds leads nowhere (`Tree.Alike.spot`); so every
operation comes to the same in both, and leaves them alike (`FileM.lockstep_replace`,
`FileM.lockstep_makeDirectories`).
-/

namespace UtilityCss

variable {a b : String}

/-- Two texts that are the same, or the same behind the heads `a` and `b`. -/
inductive Alike (a b : String) : String → String → Prop where
  | same (s : String) : Alike a b s s
  | behind (s : String) : Alike a b (a ++ s) (b ++ s)

/-- Two contents that are the same, or texts that are alike. -/
inductive Content.Alike (a b : String) : Content → Content → Prop where
  | text {s s' : String} (h : UtilityCss.Alike a b s s') : Content.Alike a b (.text s) (.text s')
  | binary (bytes : List UInt8) : Content.Alike a b (.binary bytes) (.binary bytes)

/-- Two directories, or files with contents that are alike. -/
inductive Node.Alike (a b : String) : Node → Node → Prop where
  | directory : Node.Alike a b .directory .directory
  | file {c c' : Content} (h : c.Alike a b c') : Node.Alike a b (.file c) (.file c')

/-- Two trees with alike nodes at every place. -/
def Tree.Alike (a b : String) (t t' : Tree) : Prop :=
  ∀ place, Option.Rel (Node.Alike a b) (t.node? place) (t'.node? place)

/-- Two spots at one place. -/
structure Tree.Spot.Alike (a b : String) (s s' : Tree.Spot) : Prop where
  place : s.place = s'.place
  node  : Option.Rel (Node.Alike a b) s.node s'.node

/-- Two nodes found at one place. -/
structure Tree.FoundAlike (a b : String) (e e' : Place × Node) : Prop where
  place : e.1 = e'.1
  node  : Node.Alike a b e.2 e'.2

theorem Content.Alike.refl (c : Content) : c.Alike a b c := by
  cases c with
  | text s => exact .text (.same s)
  | binary bytes => exact .binary bytes

theorem Node.Alike.refl (n : Node) : n.Alike a b n := by
  cases n with
  | directory => exact .directory
  | file c => exact .file (.refl c)

namespace Tree

variable {t t' : Tree} {s s' : Spot} {n n' : Node}

theorem Alike.refl (t : Tree) : Alike a b t t := by
  intro place
  cases t.node? place with
  | none => exact .none
  | some n => exact .some (.refl n)

theorem node?_put (t : Tree) (place other : Place) (n : Node) : (t.put place n).node? other =
    if other ≠ [] ∧ other = place then some n else t.node? other := by
  by_cases h : other = place
  · by_cases hn : place = [] <;> simp [node?, put, h, hn]
  · rw [node?_put_of_ne h, if_neg fun hc => h hc.2]

theorem node?_clear (t : Tree) (place other : Place) : (t.clear place).node? other =
    if other ≠ [] ∧ other = place then none else t.node? other := by
  by_cases h : other = place
  · by_cases hn : place = [] <;> simp [node?, clear, h, hn]
  · rw [node?_clear_of_ne h, if_neg fun hc => h hc.2]

theorem Alike.put (h : Alike a b t t') (place : Place) (hn : n.Alike a b n') :
    Alike a b (t.put place n) (t'.put place n') := by
  intro other
  rw [node?_put, node?_put]
  split
  · exact .some hn
  · exact h other

theorem Alike.clear (h : Alike a b t t') (place : Place) :
    Alike a b (t.clear place) (t'.clear place) := by
  intro other
  rw [node?_clear, node?_clear]
  split
  · exact .none
  · exact h other

/-! ### Following paths -/

theorem Alike.follow (h : Alike a b t t') (hs : s.Alike a b s') (piece : List Char) :
    Together (Spot.Alike a b) (t.follow s piece) (t'.follow s' piece) := by
  obtain ⟨place, node⟩ := s
  obtain ⟨place', node'⟩ := s'
  obtain ⟨rfl, hn⟩ := hs
  unfold Tree.follow
  rcases hn with ⟨_ | _⟩ | _
  · -- a directory leads on to the same place in both trees
    simp only
    split
    · exact .ok ⟨rfl, .some .directory⟩
    · split
      · exact .ok ⟨rfl, .some .directory⟩
      · split
        · exact .error
        · exact .ok ⟨rfl, h _⟩
  · exact .error
  · exact .error

theorem Alike.followAll (h : Alike a b t t') (pieces : List (List Char)) (hs : s.Alike a b s') :
    Together (Spot.Alike a b) (t.followAll s pieces) (t'.followAll s' pieces) := by
  induction pieces generalizing s s' with
  | nil => exact .ok hs
  | cons piece pieces ih =>
      unfold Tree.followAll
      exact (h.follow hs piece).elim (fun _ _ hone => ih hone) fun _ => .error

theorem Alike.followRoot (h : Alike a b t t') (pieces : List (List Char)) :
    Together (Spot.Alike a b) (t.followAll ⟨[], some .directory⟩ pieces)
      (t'.followAll ⟨[], some .directory⟩ pieces) :=
  h.followAll pieces ⟨rfl, .some .directory⟩

theorem Alike.spot (h : Alike a b t t') (p : Path) :
    Together (Spot.Alike a b) (t.spot p) (t'.spot p) := by
  unfold Tree.spot
  cases pathError? p with
  | some _ => exact .error
  | none => exact h.followRoot p.pieces

theorem Alike.find (h : Alike a b t t') (p : Path) :
    Together (FoundAlike a b) (t.find p) (t'.find p) := by
  unfold Tree.find
  refine (h.spot p).elim ?_ fun _ => .error
  rintro ⟨_, _⟩ ⟨_, _⟩ ⟨hplace, hn | _⟩
  · exact .ok ⟨hplace, hn⟩
  · exact .error

theorem Alike.isFile (h : Alike a b t t') (p : Path) : t.isFile p = t'.isFile p := by
  unfold Tree.isFile
  refine (h.find p).elim ?_ fun _ => rfl
  rintro ⟨_, _⟩ ⟨_, _⟩ ⟨-, hn⟩
  cases hn <;> rfl

theorem Alike.isDirectory (h : Alike a b t t') (p : Path) :
    t.isDirectory p = t'.isDirectory p := by
  unfold Tree.isDirectory
  refine (h.find p).elim ?_ fun _ => rfl
  rintro ⟨_, _⟩ ⟨_, _⟩ ⟨-, hn⟩
  cases hn <;> rfl

theorem Alike.readText (h : Alike a b t t') (p : Path) :
    Together (UtilityCss.Alike a b) (t.readText p) (t'.readText p) := by
  unfold Tree.readText
  refine (h.find p).elim ?_ fun _ => .error
  rintro ⟨_, _⟩ ⟨_, _⟩ ⟨-, _ | ⟨hs | _⟩⟩
  · exact .error
  · exact .ok hs
  · exact .error

end Tree

namespace FileM

variable {c c' : Content} {s s' : String} {p : Path}

/-- Changes of a tree that are made alike, or fail alike. -/
theorem lockstep_change {f g : Tree → Except FileError Tree}
    (h : ∀ t t', t.Alike a b t' → Together (Tree.Alike a b) (f t) (g t')) :
    Lockstep (Tree.Alike a b) (Tree.Alike a b) Eq (change f) (change g) := by
  intro t t' ht
  show Together Eq (change f t).1 (change g t').1 ∧ (change f t).2.Alike a b (change g t').2
  unfold change
  exact (h t t' ht).elim (fun _ _ hone => ⟨.ok rfl, hone⟩) fun _ => ⟨.error, ht⟩

theorem lockstep_write (p : Path) (hc : c.Alike a b c') :
    Lockstep (Tree.Alike a b) (Tree.Alike a b) Eq (write p c) (write p c') := by
  refine lockstep_change fun t t' ht => ?_
  refine (ht.spot p).elim ?_ fun _ => .error
  rintro ⟨place, _⟩ ⟨_, _⟩ ⟨rfl, ⟨_ | _⟩ | _⟩
  · exact .error
  · exact .ok (ht.put place (.file hc))
  · exact .ok (ht.put place (.file hc))

theorem lockstep_rename (source target : Path) :
    Lockstep (Tree.Alike a b) (Tree.Alike a b) Eq (rename source target) (rename source target) := by
  refine lockstep_change fun t t' ht => ?_
  refine (ht.find source).elim ?_ fun _ => .error
  rintro ⟨old, _⟩ ⟨_, _⟩ ⟨rfl, _ | hc⟩
  · exact .error
  simp only
  split
  · exact .error
  split
  · exact .error
  -- the file that is moved is alike in both trees, and the place that it takes is the same
  refine (ht.spot target).elim ?_ fun _ => .error
  rintro ⟨place, _⟩ ⟨_, _⟩ ⟨rfl, ⟨_ | _⟩ | _⟩
  · exact .error
  · exact .ok ((ht.clear old).put place (.file hc))
  · exact .ok ((ht.clear old).put place (.file hc))

theorem lockstep_makeDirectory (p : Path) :
    Lockstep (Tree.Alike a b) (Tree.Alike a b) Eq (makeDirectory p) (makeDirectory p) := by
  refine lockstep_change fun t t' ht => ?_
  cases Tree.pathError? p with
  | some _ => exact .error
  | none =>
      refine (ht.followRoot (namePieces p)).elim ?_ fun _ => .error
      rintro ⟨place, _⟩ ⟨_, _⟩ ⟨rfl, _ | _⟩
      · exact .error
      · exact .ok (ht.put place .directory)

/-- Where a directory is there already, making it is not a failure. -/
theorem lockstep_unlessDirectory (e : FileError) {t t' : Tree} (ht : t.Alike a b t') :
    Lockstep (Tree.Alike a b) (Tree.Alike a b) Eq
      (unless t.isDirectory p do throw e : FileM Unit) (unless t'.isDirectory p do throw e) := by
  rw [ht.isDirectory p]
  split
  · exact .pure_same rfl
  · exact .throw e

/-- A directory is made, or it is seen what to do instead. -/
theorem lockstep_makeDirectoryOr {k k' : FileError → Tree → FileM Unit}
    (hk : ∀ e t t', t.Alike a b t' → Lockstep (Tree.Alike a b) (Tree.Alike a b) Eq (k e t) (k' e t'))
    {t t' : Tree} (ht : t.Alike a b t') :
    Lockstep (Tree.Alike a b) (Tree.Alike a b) Eq
      (match (makeDirectory p).run t with
        | (.ok (), t)   => set t
        | (.error e, t) => k e t)
      (match (makeDirectory p).run t' with
        | (.ok (), t)   => set t
        | (.error e, t) => k' e t) := by
  obtain ⟨hr, hleft⟩ := lockstep_makeDirectory p t t' ht
  rcases hm : (makeDirectory p).run t with ⟨r, u⟩
  rcases hm' : (makeDirectory p).run t' with ⟨r', u'⟩
  rw [hm, hm'] at hr hleft
  cases hr with
  | ok _ => exact .set hleft
  | error => exact hk _ u u' hleft

theorem lockstep_makeDirectoriesUp (levels : Nat) (p : Path) :
    Lockstep (Tree.Alike a b) (Tree.Alike a b) Eq (makeDirectoriesUp levels p)
      (makeDirectoriesUp levels p) := by
  induction levels generalizing p with
  | zero =>
      unfold makeDirectoriesUp
      split
      · exact .pure_same rfl
      refine Lockstep.get.bind_same fun t t' ht =>
        lockstep_makeDirectoryOr (fun e t t' ht => ?_) ht
      split
      · exact lockstep_unlessDirectory e ht
      · exact .throw _
  | succ n ih =>
      unfold makeDirectoriesUp
      split
      · exact .pure_same rfl
      refine Lockstep.get.bind_same fun t t' ht =>
        lockstep_makeDirectoryOr (fun e t t' ht => ?_) ht
      split
      · exact lockstep_unlessDirectory e ht
      cases p.parent? with
      | none => exact .throw _
      | some above =>
          -- the directory above is made first, and then the same step is made once more
          refine (ih above).bind_same fun _ _ _ =>
            Lockstep.get.bind_same fun t t' ht =>
              lockstep_makeDirectoryOr (fun e t t' ht => ?_) ht
          exact lockstep_unlessDirectory e ht

theorem lockstep_makeDirectories (p : Path) :
    Lockstep (Tree.Alike a b) (Tree.Alike a b) Eq (makeDirectories p) (makeDirectories p) :=
  lockstep_makeDirectoriesUp _ p

theorem lockstep_replace (p : Path) (hs : Alike a b s s') :
    Lockstep (Tree.Alike a b) (Tree.Alike a b) Eq (replace p s) (replace p s') :=
  (lockstep_write _ (.text hs)).bind_same fun _ _ _ => lockstep_rename _ _

end FileM

end UtilityCss
