import UtilityCss.Proofs.Expansion.Cycle

/-!
# What a registration reaches

What a token asks for is settled by the utility of its name, so a registration changes nothing for
tokens with another name (`request_register`). Expansion goes from a name on to the names that its
parts mention, whether they are registered or not; where it never comes to the registered name
(`Reaches`), every request on the way is the one that was there before, and so is the expansion, cuts
and diagnostics included (`declarationsIn_register`). A registration therefore reaches only the tokens
from whose name its own can be reached (`register_footprint`).
-/

namespace UtilityCss

namespace Compiler

variable {c : Compiler} {name token u v : String} {styles : Styles} {variants : Variants}

/-! ### The names that an expansion can come to -/

/-- Parts of parts, or none at all, lead from the name `u` to the name `v`, registered or not. -/
def Reaches (c : Compiler) : String → String → Prop := Relation.ReflTransGen c.Mentions

theorem Reaches.part {tokens : List String} {found : List Diagnostic} {part : String}
    (hr : c.request token = .parts u tokens found) (hp : part ∈ tokens)
    (h : c.Reaches (Token.lastName part) v) : c.Reaches (Token.lastName token) v := by
  have hedge := mentions_of_request hr hp
  rw [name_eq_of_request hr] at hedge
  exact .head hedge h

/-- A set of names that holds what its utilities mention is not left. -/
theorem not_reaches_of_closed (p : String → Bool) (hu : p u) (hv : p v = false)
    (h : ∀ e ∈ c.registry.utilities.entries, p e.1 → ∀ part ∈ e.2.styles.parts,
      p (Token.lastName part)) : ¬ c.Reaches u v := by
  have hall : ∀ w, c.Reaches u w → p w := by
    intro w hw
    induction hw with
    | refl => exact hu
    | tail _ hedge ih =>
        obtain ⟨ut, hget, part, hpart, rfl⟩ := hedge
        exact h _ (OrderedMap.mem_entries_of_get? hget) ih part hpart
  exact fun hreach => Bool.false_ne_true (hv.symm.trans (hall v hreach))

/-! ### The registry behind a registration -/

theorem get?_register_self :
    (c.register [(name, styles)] variants).registry.get? name = some ⟨styles, variants⟩ :=
  OrderedMap.get?_insert_self

theorem get?_register_of_ne (h : u ≠ name) :
    (c.register [(name, styles)] variants).registry.get? u = c.registry.get? u :=
  OrderedMap.get?_insert_of_ne h

/-- A name that is registered again adds no name. -/
theorem names_register (h : name ∈ c.registry.names) :
    (c.register [(name, styles)] variants).registry.names = c.registry.names :=
  OrderedMap.keys_insert.trans (if_pos h)

/-- A registration is not seen by tokens with another name. -/
theorem request_register (h : Token.lastName token ≠ name) :
    (c.register [(name, styles)] variants).request token = c.request token := by
  have hget : (c.register [(name, styles)] variants).registry.get?
      (Token.parse c.breakpoints token).1.name =
        c.registry.get? (Token.parse c.breakpoints token).1.name := get?_register_of_ne h
  simp only [request]
  rw [← hget]
  rfl

/-- An expansion that does not come to the registered name stays as it was. -/
theorem declarationsIn_register (opened : List String) (token : String) :
    ¬ c.Reaches (Token.lastName token) name →
      (c.register [(name, styles)] variants).declarationsIn opened token =
        c.declarationsIn opened token := by
  induction opened, token using expansion_induction (c := c) with
  | settled opened token r h =>
      intro hn
      have hne : Token.lastName token ≠ name := fun e => hn (e ▸ .refl)
      rw [declarationsIn_settled h, declarationsIn_settled ((request_register hne).trans h)]
  | cut opened token n tokens found h ho =>
      intro hn
      have hne : Token.lastName token ≠ name := fun e => hn (e ▸ .refl)
      rw [declarationsIn_cut h ho, declarationsIn_cut ((request_register hne).trans h) ho]
  | parts opened token n tokens found h ho ih =>
      intro hn
      have hne : Token.lastName token ≠ name := fun e => hn (e ▸ .refl)
      rw [declarationsIn_parts h ho, declarationsIn_parts ((request_register hne).trans h) ho]
      exact congrArg (assemble token found) (List.map_congr_left fun part hp =>
        ih part hp fun hreach => hn (hreach.part h hp))

/-- **A registration has a bounded footprint.**  It is in force at its own name, whatever stood there;
and a token from whose name this name cannot be reached compiles to the same text with the same
diagnostics as before, in either mode. -/
theorem register_footprint (c : Compiler) (name : String) (styles : Styles) (variants : Variants) :
    let c' := c.register [(name, styles)] variants
    c'.registry.get? name = some ⟨styles, variants⟩ ∧
    ∀ token, ¬ c.Reaches (Token.lastName token) name → ∀ mode,
      c'.compile token mode = c.compile token mode := by
  refine ⟨get?_register_self, fun token h mode => ?_⟩
  have hexpansion : (c.register [(name, styles)] variants).declarationsIn [] token = _ :=
    declarationsIn_register [] token h
  cases mode with
  | declarations => exact hexpansion
  | rule =>
      show Compiled.mk _ _ = Compiled.mk _ _
      rw [hexpansion]
      rfl

/-- A utility in place of the keyword `flex` is not seen where only `block` is mentioned, and one in
place of `grid` that leads to a cycle is not seen on this cycle. -/
theorem register_footprint_shadowing :
    (∀ mode, (diamond.register [("flex", .compose "top")] .none).compile "hover:left" mode =
      diamond.compile "hover:left" mode) ∧
    (∀ mode, (entangled.register [("grid", .compose "card grid")] .all).compile "md:!card" mode =
      entangled.compile "md:!card" mode) ∧
    (diamond.register [("flex", .compose "top")] .none).registry.get? "flex" =
      some ⟨.compose "top", .none⟩ := by
  have hdiamond : ¬ diamond.Reaches (Token.lastName "hover:left") "flex" :=
    not_reaches_of_closed (· ≠ "flex") (by decide) (by decide) (by decide +kernel)
  have hentangled : ¬ entangled.Reaches (Token.lastName "md:!card") "grid" :=
    not_reaches_of_closed (· ≠ "grid") (by decide) (by decide) (by decide +kernel)
  obtain ⟨hforce, hkept⟩ := register_footprint diamond "flex" (.compose "top") .none
  exact ⟨hkept _ hdiamond,
    (register_footprint entangled "grid" (.compose "card grid") .all).2 _ hentangled, hforce⟩

end Compiler

end UtilityCss
