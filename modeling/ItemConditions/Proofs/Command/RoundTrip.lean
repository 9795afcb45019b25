import ItemConditions.Slot
import ItemConditions.Proofs.Command.Forms

/-!
# Commands read back

A line that is read and written is read as the same condition, and from then on it stays. Exactly
the conditions that a command can express survive being written as a line.

## Main definitions

* `Command.IsWritable`: apart from the amount, a command can say what the condition is
* `Command.Carries`: a command carries the condition's amount
* `Command.IsExpressible`: a command can say what the condition is
* `Command.reread`: the record that is read from what is written for a record
* `Command.settled`: what a condition that was read becomes once it is written

## Main results

* `Command.read_write`: what is written is read back
* `Slot.commands_stable`: after one pass a list of lines is a fixed point
* `Command.survives_iff`: which conditions survive being written
-/

namespace ItemConditions

namespace Command

open Placeholder (IsItem)

/-! ## The conditions that commands hold -/

/-- **Apart from the amount, a command can say what the condition is.** Kept text has to be no
command of a known form. -/
def IsWritable : Condition → Prop
  | .money _ => True
  | .playerMeta key _ => IsWord key
  | .mythicMobs m | .neigeItems m => m.IsRemovable
  | .raw t => (read t).condition = .raw t
  | .level _ | .unknown .. => False

/-- **A command carries the condition's amount**: money without a minus sign, a meta counter that is
finite, and a whole number of items. -/
def Carries : Condition → Prop
  | .money a => a.isFinite ∧ a.isNegative = false
  | .playerMeta _ a => a.isFinite
  | .mythicMobs m | .neigeItems m => IsCount m.amount
  | _ => True

/-- **A command can say what the condition is.** -/
def IsExpressible (c : Condition) : Prop := IsWritable c ∧ Carries c

/-- The condition that is read from the line that is written for a condition. A number without a
numeral makes the line kept text, and so does a minus sign in front of money. -/
def restated (line : Text) : Condition → Condition
  | .money a => if a.isFinite ∧ a.isNegative = false then .money a else .raw line
  | .playerMeta key a => if a.isFinite then .playerMeta key a else .raw line
  | .mythicMobs m => .mythicMobs { m with amount := .ofNat (asked m.amount) }
  | .neigeItems m => .neigeItems { m with amount := .ofNat (asked m.amount) }
  | c => c

/-- The record that is read from what is written for a record. -/
def reread (r : Record) : Record :=
  { condition := restated (write r) r.condition, rawText := write r, isAction := true }

/-- What a condition that was read becomes once it is written: an amount that was too large for
a finite number makes the line kept text, and a removal asks for `2 ^ 64` items at most. -/
def settled (line : Text) : Condition → Condition
  | .money a => if a.isFinite then .money a else .raw line
  | .playerMeta key a => if a.isFinite then .playerMeta key a else .raw line
  | .mythicMobs m => .mythicMobs { m with amount := capped m.amount }
  | .neigeItems m => .neigeItems { m with amount := capped m.amount }
  | c => c

@[simp] theorem isWritable_setAmount (c : Condition) (a : Binary64) :
    IsWritable (c.setAmount a) ↔ IsWritable c := by
  cases c <;> rfl

theorem IsRecognized.isWritable {c : Condition} (h : IsRecognized c) : IsWritable c := by
  cases c with
  | money a => trivial
  | playerMeta key a => exact h.2
  | mythicMobs m => exact h.1
  | neigeItems m => exact h.1
  | _ => exact h.elim

theorem IsRecognized.isStructured {c : Condition} (h : IsRecognized c) : c.isStructured := by
  cases c <;> first | rfl | exact h.elim

theorem IsRecognized.amount_ne_nan {c : Condition} (h : IsRecognized c) : c.amount ≠ .nan := by
  cases c with
  | money a => exact h.1
  | playerMeta key a => exact h.1
  | mythicMobs m =>
    obtain ⟨-, n, hn⟩ := h
    rw [Condition.amount, hn]
    exact Binary64.ofRatio_ne_nan false n 1
  | neigeItems m =>
    obtain ⟨-, n, hn⟩ := h
    rw [Condition.amount, hn]
    exact Binary64.ofRatio_ne_nan false n 1
  | _ => exact h.elim

/-- What is read is restated without loss, but for amounts too large. -/
theorem IsRecognized.restated_eq {c : Condition} (h : IsRecognized c) (line : Text) :
    restated line c = settled line c := by
  cases c with
  | money a => simp [restated, settled, h.2]
  | playerMeta key a => rfl
  | mythicMobs m =>
    obtain ⟨-, n, hn⟩ := h
    rw [restated, settled, hn, ofNat_asked_ofNat]
  | neigeItems m =>
    obtain ⟨-, n, hn⟩ := h
    rw [restated, settled, hn, ofNat_asked_ofNat]
  | _ => exact h.elim

/-! ## Reading -/

theorem read_eq (line : Text) : read line =
    { condition := (recognize? (Text.trim line)).getD (.raw line)
      rawText := line
      isAction := true } := by
  unfold read
  cases recognize? (Text.trim line) <;> rfl

/-- A line is recognised or kept as it stands. -/
theorem condition_read_cases (line : Text) :
    IsRecognized (read line).condition ∨ (read line).condition = .raw line := by
  rw [read_eq]
  cases h : recognize? (Text.trim line) with
  | none => exact Or.inr rfl
  | some c => exact Or.inl (isRecognized_of_recognize? h)

/-- A line that no rule knows is written as it stands. -/
theorem write_read_of_not_isStructured {line : Text} (h : (read line).isStructured = false) :
    write (read line) = line := by
  rcases condition_read_cases line with hrecognized | hraw
  · rw [Record.isStructured, hrecognized.isStructured] at h
    exact absurd h (by decide)
  · rw [write, hraw]

/-- What is read can be written. -/
theorem isWritable_read (line : Text) : IsWritable (read line).condition := by
  rcases condition_read_cases line with h | h
  · exact h.isWritable
  · rw [h]
    exact h

/-! ## Writing -/

/-- A line without blanks at its ends is read as it is recognised. -/
theorem read_eq_of_isTrimmed {line : Text} (h : Text.IsTrimmed line) : read line =
    { condition := (recognize? line).getD (.raw line), rawText := line, isAction := true } := by
  rw [read_eq, Text.trim_eq_self h]

/-- A line that ends with a numeral has no blank at its end. -/
theorem isBlank_of_mem_getLast? (t : Text) (x : Binary64) :
    ∀ c ∈ (t ++ x.toPlain).getLast?, Text.isBlank c = false := by
  intro c hc
  rw [List.getLast?_append_of_ne_nil _ x.toPlain_ne_nil] at hc
  exact Binary64.isBlank_of_mem_toPlain (List.mem_of_getLast? hc)

theorem read_money (a : Binary64) : (read (line moneyStart a.toPlain)).condition
    = if a.isFinite ∧ a.isNegative = false then .money a
      else .raw (line moneyStart a.toPlain) := by
  have htrimmed := isTrimmed_line moneyStart a.toPlain_ne_nil (isBlank_of_mem_getLast? [] a)
  have hread := Numeral.unsigned?_toPlain a
  rw [read_eq_of_isTrimmed htrimmed, recognize?_money]
  split_ifs at hread ⊢ with ha
  · obtain ⟨d, hd, hvalue⟩ := Option.map_eq_some_iff.1 hread
    rw [hd, Option.map_some, hvalue]
    rfl
  · rw [Option.map_eq_none_iff.1 hread]
    rfl

theorem read_meta {key : Text} (hkey : IsWord key) (a : Binary64) :
    (read (line metaStart (key ++ ' ' :: a.toPlain))).condition
      = if a.isFinite then .playerMeta key a
        else .raw (line metaStart (key ++ ' ' :: a.toPlain)) := by
  have hlast := isBlank_of_mem_getLast? (key ++ [' ']) a
  rw [List.append_assoc, List.singleton_append] at hlast
  have htrimmed := isTrimmed_line metaStart (by simp) hlast
  rw [read_eq_of_isTrimmed htrimmed, recognize?_meta hkey, Numeral.readPlain?_toPlain]
  split_ifs <;> rfl

theorem read_removalLine {c : Condition} {mark : Text} {m : ItemMatch} (h : IsItem c mark m)
    (hm : m.IsRemovable) (n : ℕ) :
    (read (removalLine mark m n)).condition = c.setAmount (.ofNat n) := by
  have htrimmed : Text.IsTrimmed (removalLine mark m n) := by
    refine isTrimmed_line removalStart (by simp) ?_
    rw [List.getLast?_concat]
    rintro d ⟨⟩
    rfl
  rw [read_eq_of_isTrimmed htrimmed, recognize?_removal h hm]
  rfl

theorem write_playerMeta {r : Record} {key : Text} {a : Binary64}
    (h : r.condition = .playerMeta key a) :
    write r = line metaStart (key ++ ' ' :: a.toPlain) := by
  simp [write, h, line]

theorem write_of_isItem {r : Record} {mark : Text} {m : ItemMatch} (h : IsItem r.condition mark m) :
    write r = removalLine mark m (m.amount.wholePart countLimit) := by
  generalize hc : r.condition = c at h
  rw [← removal_eq]
  cases h with
  | neige => rw [write, hc]
  | mythic => rw [write, hc]

/-- **What is written is read back.** -/
theorem read_write {r : Record} (h : IsWritable r.condition) : read (write r) = reread r := by
  have hcondition : (read (write r)).condition = restated (write r) r.condition := by
    cases hc : r.condition with
    | money a =>
      have hwrite : write r = line moneyStart a.toPlain := by rw [write, hc]; rfl
      rw [hwrite, read_money, restated]
    | playerMeta key a =>
      rw [hc] at h
      rw [write_playerMeta hc, read_meta h, restated]
    | mythicMobs m =>
      rw [hc] at h
      have hitem : IsItem r.condition Placeholder.mythicMark m := hc ▸ .mythic m
      rw [write_of_isItem hitem, read_removalLine (.mythic m) h, ofNat_wholePart]
      rfl
    | neigeItems m =>
      rw [hc] at h
      have hitem : IsItem r.condition Placeholder.neigeMark m := hc ▸ .neige m
      rw [write_of_isItem hitem, read_removalLine (.neige m) h, ofNat_wholePart]
      rfl
    | raw t =>
      rw [hc] at h
      have hwrite : write r = t := by rw [write, hc]
      rw [hwrite]
      exact h
    | level a => exact absurd (hc ▸ h) (by simp [IsWritable])
    | unknown key a => exact absurd (hc ▸ h) (by simp [IsWritable])
  rw [reread, ← hcondition, read_eq]

/-- A line that is written for a condition that a command can express is recognised. -/
theorem isStructured_read_write {r : Record} (hstructured : r.isStructured)
    (h : IsExpressible r.condition) : (read (write r)).isStructured := by
  obtain ⟨hwritable, hcarries⟩ := h
  have hcondition : (read (write r)).condition = restated (write r) r.condition := by
    rw [read_write hwritable, reread]
  rw [Record.isStructured, hcondition]
  rw [Record.isStructured] at hstructured
  cases hc : r.condition with
  | money a =>
    have hamount : a.isFinite ∧ a.isNegative = false := by rwa [hc] at hcarries
    rw [restated, if_pos hamount]
    rfl
  | playerMeta key a =>
    have hamount : a.isFinite := by rwa [hc] at hcarries
    rw [restated, if_pos hamount]
    rfl
  | mythicMobs m => rfl
  | neigeItems m => rfl
  | _ => rwa [hc] at hstructured

theorem removal_asked (mark : Text) (m : ItemMatch) :
    removal mark { m with amount := .ofNat (asked m.amount) } = removal mark m := by
  simp only [removal, wholePart_eq, asked_ofNat_asked]
  rfl

/-- What is read back is written the same. -/
theorem write_reread {r : Record} (h : IsWritable r.condition) : write (reread r) = write r := by
  cases hc : r.condition with
  | money a =>
    by_cases ha : a.isFinite ∧ a.isNegative = false
    · simp [reread, hc, restated, ha, write]
    · simp only [reread, hc, restated, if_neg ha]
      rfl
  | playerMeta key a =>
    by_cases ha : a.isFinite
    · simp [reread, hc, restated, ha, write]
    · simp only [reread, hc, restated, if_neg ha]
      rfl
  | mythicMobs m => simpa [reread, hc, restated, write] using removal_asked _ m
  | neigeItems m => simpa [reread, hc, restated, write] using removal_asked _ m
  | raw t => simp [reread, hc, restated, write]
  | level a => exact absurd (hc ▸ h) (by simp [IsWritable])
  | unknown key a => exact absurd (hc ▸ h) (by simp [IsWritable])

/-! ## What survives -/

/-- A condition that can be written is restated as itself if its amount is carried. -/
theorem same_restated_iff (line : Text) {c : Condition} (h : IsWritable c) :
    (restated line c).same c ↔ Carries c := by
  cases c with
  | money a =>
    by_cases ha : a.isFinite ∧ a.isNegative = false
    · have hsame := Binary64.ne_nan_of_isFinite ha.1
      simp [restated, Carries, ha, Condition.same, Binary64.equals_self_iff, hsame]
    · simp only [restated, Carries, if_neg ha]
      simp [Condition.same, ha]
  | playerMeta key a =>
    by_cases ha : a.isFinite
    · have hsame := Binary64.ne_nan_of_isFinite ha
      simp [restated, Carries, ha, Condition.same, Binary64.equals_self_iff, hsame]
    · simp [restated, Carries, ha, Condition.same]
  | mythicMobs m =>
    simp [restated, Carries, Condition.same, ItemMatch.same, ← equals_ofNat_asked_iff]
  | neigeItems m =>
    simp [restated, Carries, Condition.same, ItemMatch.same, ← equals_ofNat_asked_iff]
  | raw t => simp [restated, Carries, Condition.same]
  | level a => exact h.elim
  | unknown key a => exact h.elim

theorem same_read_write_iff (r : Record) :
    (read (write r)).condition.same r.condition ↔ IsExpressible r.condition := by
  constructor
  · intro hsame
    have hwritable : IsWritable r.condition := by
      rw [← isWritable_setAmount _ .zero, ← Condition.setAmount_eq_of_same hsame,
        isWritable_setAmount]
      exact isWritable_read (write r)
    rw [read_write hwritable] at hsame
    exact ⟨hwritable, (same_restated_iff _ hwritable).mp hsame⟩
  · rintro ⟨hwritable, hcarries⟩
    rw [read_write hwritable]
    exact (same_restated_iff _ hwritable).mpr hcarries

/-- An item that a removal can name is read back, and its amount is the number that is asked for. -/
theorem condition_read_write_item {r : Record} {m : ItemMatch} (hitem : r.condition.item? = some m)
    (hm : m.IsRemovable) :
    (read (write r)).condition = r.condition.setAmount (.ofNat (asked m.amount)) := by
  cases hc : r.condition with
  | mythicMobs m' =>
    obtain rfl : m' = m := by simpa [hc, Condition.item?] using hitem
    rw [read_write (hc ▸ hm), reread, hc]
    rfl
  | neigeItems m' =>
    obtain rfl : m' = m := by simpa [hc, Condition.item?] using hitem
    rw [read_write (hc ▸ hm), reread, hc]
    rfl
  | _ => simp [hc, Condition.item?] at hitem

/-- **Exactly the conditions that commands can express survive being written** as a line. An item
that a removal can name survives up to its amount: what is left of it is the number of items that is
asked for. -/
theorem survives_iff (r : Record) :
    ((read (write r)).condition.same r.condition ↔ IsExpressible r.condition) ∧
      ∀ m, r.condition.item? = some m → m.IsRemovable →
        (read (write r)).condition = r.condition.setAmount (.ofNat (asked m.amount)) ∧
          (Binary64.ofNat (asked m.amount)).isFinite ∧
          (Binary64.ofNat (asked m.amount)).toRat = asked m.amount := by
  refine ⟨same_read_write_iff r, fun m hitem hm => ⟨condition_read_write_item hitem hm, ?_, ?_⟩⟩
  · exact isFinite_ofNat_asked m.amount
  · exact toRat_ofNat_asked m.amount

/-- Of two and a half items, two are asked for. -/
theorem survives_iff_fraction :
    (⟨[], "wood".toList, .finite false 1024 0x4000000000000, false⟩ : ItemMatch).IsRemovable ∧
      (read (write (.command (.neigeItems
        ⟨[], "wood".toList, .finite false 1024 0x4000000000000, false⟩)))).condition
          = .neigeItems ⟨[], "wood".toList, .ofNat 2, false⟩ := by
  have hasked : asked (.finite false 1024 0x4000000000000) = 2 := by
    have hsignificand : Binary64.significand 1024 0x4000000000000 = 5 * 2 ^ 50 := by decide
    have hpower : Binary64.power 1024 = -51 := by decide
    have hvalue : (Binary64.finite false 1024 0x4000000000000).toRat = 5 / 2 := by
      change Binary64.magnitude 1024 0x4000000000000 = 5 / 2
      rw [Binary64.magnitude, hsignificand, hpower]
      norm_num
    have hfloor : ⌊(5 / 2 : ℚ)⌋₊ = 2 := (Nat.floor_eq_iff (by norm_num)).mpr (by norm_num)
    rw [asked, hvalue, hfloor]
    rfl
  have hm : (⟨[], "wood".toList, .finite false 1024 0x4000000000000, false⟩ :
      ItemMatch).IsRemovable := by
    refine ⟨?_, ?_, ?_⟩ <;> simp [ItemMatch.IsClear]
  refine ⟨hm, ?_⟩
  rw [((survives_iff (.command (.neigeItems _))).2 _ rfl hm).1, hasked]
  rfl

end Command

namespace Slot

/-- **After one pass a list of lines is a fixed point.** Kept lines stay as they are, and the second
reading has the conditions of the first one up to the amounts that no command carries. -/
theorem commands_stable (lines : List Text) :
    ∃ written, encode .commands (lines.map Command.read) = .commands written ∧
      written.length = lines.length ∧
      List.Forall₂ (fun line e =>
        ((Command.read line).isStructured = false → e = line) ∧
          Command.read e =
            { condition := Command.settled e (Command.read line).condition
              rawText := e
              isAction := true
              comparator := .ge }) lines written ∧
      encode .commands (written.map Command.read) = .commands written := by
  refine ⟨(lines.map Command.read).map Command.write, rfl, by simp, ?_, ?_⟩
  · rw [List.map_map, List.forall₂_map_right_iff, List.forall₂_same]
    intro line _
    have hwritable := Command.isWritable_read line
    rcases Command.condition_read_cases line with h | h
    · refine ⟨fun hkept => absurd h.isStructured (by simpa [Record.isStructured] using hkept), ?_⟩
      rw [Function.comp_apply, Command.read_write hwritable, Command.reread, h.restated_eq]
    · have hwrite : Command.write (Command.read line) = line := by rw [Command.write, h]
      refine ⟨fun _ => hwrite, ?_⟩
      rw [Function.comp_apply, Command.read_write hwritable, Command.reread, h]
      rfl
  · refine congrArg Encoded.commands ?_
    simp only [List.map_map]
    refine List.map_congr_left fun line _ => ?_
    have hwritable := Command.isWritable_read line
    simp only [Function.comp_apply]
    rw [Command.read_write hwritable, Command.write_reread hwritable]

end Slot

end ItemConditions
