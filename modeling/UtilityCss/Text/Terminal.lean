/-!
# Characters that terminals obey

A report may be shown on a terminal, and texts from outside may hold characters that a terminal takes
for commands. Such a character is written as its number, so that it is seen and does nothing.
-/

namespace UtilityCss.Text

/-- Whether a terminal may take a character for a command: a bell, a backspace, a form feed, an escape,
a delete, or a control character outside ASCII. -/
def isCommand (c : Char) : Bool :=
  let n := c.toNat
  n = 0x07 || n = 0x08 || n = 0x0C || n = 0x1B || (0x7F ≤ n && n ≤ 0x9F)

/-- A character as it is shown on a terminal. -/
def disarmChar (c : Char) : List Char :=
  let digits := Nat.toDigits 16 c.toNat
  if !isCommand c then [c]
  else if c.toNat < 0x80 then
    '\\' :: 'x' :: (List.replicate (2 - digits.length) '0' ++ digits)
  else '\\' :: 'u' :: '\x7b' :: (digits ++ ['\x7d'])

/-- A text as it is shown on a terminal. -/
def disarm (s : String) : String := String.ofList (s.toList.flatMap disarmChar)

theorem all_disarmChar_small :
    (List.range 0xA0).all (fun n => (disarmChar (Char.ofNat n)).all (!isCommand ·)) = true := by
  decide +kernel

theorem not_isCommand_of_mem_disarmChar {a c : Char} (h : a ∈ disarmChar c) :
    isCommand a = false := by
  cases hc : isCommand c with
  | false =>
    simp only [disarmChar, hc, Bool.not_false, if_true, List.mem_singleton] at h
    rw [h, hc]
  | true =>
    have hn : c.toNat < 0xA0 := by
      simp only [isCommand, Bool.or_eq_true, Bool.and_eq_true, decide_eq_true_eq] at hc
      omega
    have all := List.all_eq_true.1 all_disarmChar_small c.toNat (List.mem_range.2 hn)
    rw [Char.ofNat_toNat] at all
    simpa using List.all_eq_true.1 all a h

/-- Nothing that a terminal obeys is shown. -/
theorem not_isCommand_of_mem_disarm {s : String} {a : Char} (h : a ∈ (disarm s).toList) :
    isCommand a = false := by
  simp only [disarm, String.toList_ofList, List.mem_flatMap] at h
  obtain ⟨c, -, h⟩ := h
  exact not_isCommand_of_mem_disarmChar h

end UtilityCss.Text
