import ItemConditions.CommandLine.Run
import ItemConditions.Proofs.Record.RoundTrip
import ItemConditions.Proofs.Session.Settled

/-!
# Records given out and taken in

The records at a path are shown as JSON and can be given back to be committed. What is written then
is the encoding of the records that were loaded, as long as the amounts come back as they were; an
amount with a short numeral always does. One that does not is changed without a word.

## Main definitions

* `Record.jsonTexts`: the JSON texts of a list of records
* `Binary64.IsShort`: a numeral of at most fifteen digits, without an exponent
* `Document.written`: the document with an encoding written at a path

## Main results

* `Record.sameList_iff_of_mapM`: an equal list comes back only as the same one
* `Record.records_given_back`: what comes back, and what is committed then
-/

namespace ItemConditions

/-- **A number with a short numeral**: at most fifteen digits, and no exponent. -/
def Binary64.IsShort (x : Binary64) : Prop :=
  'e' ∉ Json.ofNumber (.real x) ∧ (Json.ofNumber (.real x)).countP Char.isDigit ≤ 15

/-- The two zeros are read back with their signs. -/
theorem Binary64.reread_of_isZero {x : Binary64} (h : x.isZero) : x.reread = .ok x := by
  have hall : ∀ negative, (signedZero negative).reread = .ok (signedZero negative) := by
    decide +kernel
  cases x with
  | nan => simp [isZero] at h
  | infinity negative => simp [isZero] at h
  | finite negative e f =>
    simp only [isZero, Bool.and_eq_true, beq_iff_eq] at h
    obtain rfl : e = 0 := Fin.ext h.1
    obtain rfl : f = 0 := Fin.ext h.2
    exact hall negative

/-- A number that is read as an equal one is read back. -/
theorem Binary64.eq_of_equals_reread {x y : Binary64} (h : x.reread = .ok y) (he : y.equals x) :
    y = x := by
  simp only [equals, Bool.and_eq_true, Bool.or_eq_true, beq_iff_eq] at he
  rcases he with ⟨-, rfl | ⟨-, hx⟩⟩
  · rfl
  · rw [reread_of_isZero hx] at h
    exact (Except.ok.inj h).symm

namespace Document

/-- **The document with an encoding written at a path**; an empty list of clauses removes the
field. -/
def written (doc : Document) (item : Text) (path : ItemPath) (encoded : Encoded) :
    Except SlotError Document :=
  match encoded.toValue? with
  | some new => doc.set item path new
  | none => (doc.remove item path).map Prod.snd

/-- A commit writes the encoding of its records. -/
theorem answer_commit {doc : Document} {item : Text} (h : (doc.item? item).isSome)
    (path : ItemPath) (rs : List Record) : ∃ outcome, (doc.commit item path rs).answer
      = match doc.written item path (Slot.encode path.kind rs) with
        | .ok after => .ok (outcome, after)
        | .error e => .error (.slot e) := by
  have hitem : (doc.item? item).isNone = false := by simpa [← Option.isSome_eq_false_iff] using h
  rw [commit, hitem, if_neg Bool.false_ne_true, written]
  cases (Slot.encode path.kind rs).toValue? with
  | some new =>
    refine ⟨.written, ?_⟩
    simp only
    cases doc.set item path new <;> rfl
  | none =>
    refine ⟨.removed, ?_⟩
    simp only
    cases doc.remove item path <;> rfl

end Document

namespace Record

variable {rs ss : List Record} {r s : Record}

/-- **The JSON texts of a list of records**: without blanks, with one item a line, and as it is
shown, with the end of the line. -/
def jsonTexts (rs : List Record) : List Text :=
  [Json.compact (listToValue rs), Json.pretty (listToValue rs),
    Json.pretty (listToValue rs) ++ ['\n']]

theorem readList_eq {text : Text} (h : text ∈ jsonTexts rs) : readList text = rs.mapM reread := by
  simp only [jsonTexts, List.mem_cons, List.not_mem_nil, or_false] at h
  obtain rfl | rfl | rfl := h
  · exact readList_compact rs
  · simpa using readList_pretty rs Json.isBlank_nil
  · refine readList_pretty rs fun c hc => ?_
    rw [List.mem_singleton.mp hc]
    rfl

theorem mapM_reread_self_iff : rs.mapM reread = .ok rs ↔ ∀ r ∈ rs, r.KeepsAmount := by
  rw [mapM_eq_ok_iff, List.forall₂_same]
  exact forall₂_congr fun r _ => reread_self_iff

/-- A record that is read as an equal one is read back. -/
theorem eq_of_same (h : r.reread = .ok s) (hsame : s.same r) : s = r := by
  obtain ⟨hs, hamount⟩ := reread_eq_ok_iff.mp h
  rw [hs]
  cases hr : r.isStructured with
  | false => rw [setAmount, Condition.setAmount_of_raw hr]
  | true =>
    have hequals : s.amount.equals r.amount := by
      simp only [same, Bool.and_eq_true] at hsame
      exact Condition.equals_amount_of_same hsame.1.1.1
    rw [Binary64.eq_of_equals_reread (hamount hr).2 hequals, setAmount, amount,
      Condition.setAmount_amount]

/-- A list that is read as an equal one, with amounts compared as numbers, is read back. -/
theorem eq_of_sameList (h : rs.mapM reread = .ok ss) (hsame : sameList ss rs) : ss = rs := by
  rw [mapM_eq_ok_iff] at h
  induction h with
  | nil => rfl
  | cons hread _ ih =>
    rw [sameList, Bool.and_eq_true] at hsame
    rw [eq_of_same hread hsame.1, ih hsame.2]

/-- **What comes back is an equal list** if and only if it is the same one. -/
theorem sameList_iff_of_mapM (h : rs.mapM reread = .ok ss) : sameList ss rs ↔ ss = rs := by
  refine ⟨eq_of_sameList h, ?_⟩
  rintro rfl
  refine sameList_self_iff.mpr fun r hr => ?_
  cases hr' : r.isStructured with
  | true => exact Binary64.ne_nan_of_isFinite (mapM_reread_self_iff.mp h r hr hr').1
  | false =>
    rw [amount, Condition.amount_of_raw hr']
    decide

/-- What comes back from a list differs from it in amounts only, all of which were finite. -/
theorem forall₂_of_mapM (h : rs.mapM reread = .ok ss) : List.Forall₂ (fun r s =>
    s = r.setAmount s.amount ∧
      (r.isStructured → r.amount.isFinite ∧ r.amount.reread = .ok s.amount)) rs ss :=
  (mapM_eq_ok_iff.mp h).imp fun _ _ => reread_eq_ok_iff.mp

/-- An amount that is not finite is written as null, and no list comes back. -/
theorem exists_error (h : ∃ r ∈ rs, r.isStructured ∧ r.amount.isFinite = false) :
    ∃ fault, rs.mapM reread = .error fault := by
  obtain ⟨r, hr, hstructured, hfinite⟩ := h
  cases hread : rs.mapM reread with
  | error fault => exact ⟨fault, rfl⟩
  | ok ss =>
    have hall : ∀ r ∈ rs, r.isStructured → r.amount.isFinite := by
      have hand := (forall₂_of_mapM hread).imp fun r s h =>
        And.intro (fun hr => (h.2 hr).1) h.1
      exact ((List.forall₂_and_left _ _).mp hand).1
    rw [hall r hr hstructured] at hfinite
    exact absurd hfinite Bool.false_ne_true.symm

theorem keepsAmount_of_isShort (h : r.isStructured → r.amount.isFinite ∧ r.amount.IsShort) :
    r.KeepsAmount := by
  intro hr
  obtain ⟨hfinite, hexponent, hdigits⟩ := h hr
  exact ⟨hfinite, Binary64.reread_eq_self hfinite hexponent hdigits⟩

end Record

namespace CommandLine

/-- The document goes out with the encoding of some records at a path, or what is written to is
not there. -/
def writeRecords (stamp : Text) (tree : FileTree) (target : Target) (destination : Destination)
    (doc : Document) (rs : List Record) : Outcome :=
  match doc.written target.item target.path (Slot.encode target.path.kind rs) with
  | .ok after => deliver stamp tree target.file destination after []
  | .error e => .failed tree 4 e.message []

/-- Records that are given are written, once they are read. -/
theorem run_commit {tree : FileTree} {target : Target} {doc : Document}
    (hfile : Document.ofFile tree target.file = .ok doc)
    (hitem : (doc.item? target.item).isSome) (given : Text) (destination : Destination)
    (stamp : Text) :
    (Command.commit target given destination).run stamp tree
      = match Record.readList given with
        | .ok ss => writeRecords stamp tree target destination doc ss
        | .error fault => .failed tree 3 ("invalid --records JSON: " ++ fault.message) [] := by
  simp only [Command.run, withDocument, hfile]
  cases Record.readList given with
  | error fault => rfl
  | ok ss =>
    obtain ⟨outcome, hanswer⟩ := Document.answer_commit hitem target.path ss
    simp only [hanswer, writeRecords]
    cases doc.written target.item target.path (Slot.encode target.path.kind ss) <;> rfl

/-- What is shown of the records at a path, if anything is. -/
theorem output_records (tree : FileTree) (target : Target) (stamp : Text) :
    ((Command.records target true).run stamp tree).code ≠ 0 ∨
      ∃ doc rs, Document.ofFile tree target.file = .ok doc ∧
        doc.load target.item target.path = .ok rs ∧
        ((Command.records target true).run stamp tree).output
          = Json.pretty (Record.listToValue rs) ++ ['\n'] := by
  simp only [Command.run, withSession, withDocument]
  cases Document.ofFile tree target.file with
  | error e => exact Or.inl (by simp [Outcome.failed])
  | ok doc =>
    simp only [Session.start]
    cases hload : doc.load target.item target.path with
    | error e => exact Or.inl (by simp [Outcome.failed, Except.map])
    | ok rs => exact Or.inr ⟨doc, rs, rfl, hload, rfl⟩

end CommandLine

namespace Record

open CommandLine (Command writeRecords)

/-- **Records given out and taken in.** From its JSON text a list comes back record by record, and
it is the same list if and only if each amount is finite and its numeral is read as that amount. No
other field is ever changed, an amount that is not finite ends the reading, and a finite one with a
short numeral comes back. What was shown of the records at a path is therefore committed there as
what they are encoded to. -/
theorem records_given_back :
    (∀ rs : List Record, ∀ text ∈ jsonTexts rs,
      readList text = rs.mapM reread ∧
      (readList text = .ok rs ↔ ∀ r ∈ rs, r.KeepsAmount) ∧
      (∀ ss, readList text = .ok ss → (sameList ss rs ↔ ss = rs) ∧ List.Forall₂ (fun r s =>
        s = r.setAmount s.amount ∧
          (r.isStructured → r.amount.isFinite ∧ r.amount.reread = .ok s.amount)) rs ss) ∧
      ((∃ r ∈ rs, r.isStructured ∧ r.amount.isFinite = false) →
        ∃ fault, readList text = .error fault) ∧
      ((∀ r ∈ rs, r.isStructured → r.amount.isFinite ∧ r.amount.IsShort) →
        readList text = .ok rs)) ∧
    (∀ (stamp : Text) (tree : FileTree) (target : CommandLine.Target),
      let shown := (Command.records target true).run stamp tree
      shown.code ≠ 0 ∨
        ∃ doc rs, Document.ofFile tree target.file = .ok doc ∧
          doc.load target.item target.path = .ok rs ∧
          ∀ destination stamp',
            let committed := (Command.commit target shown.output destination).run stamp' tree
            (committed = match rs.mapM reread with
              | .ok ss => writeRecords stamp' tree target destination doc ss
              | .error fault =>
                .failed tree 3 ("invalid --records JSON: " ++ fault.message) []) ∧
            ((∀ r ∈ rs, r.KeepsAmount) →
              committed = writeRecords stamp' tree target destination doc rs)) := by
  constructor
  · intro rs text htext
    rw [readList_eq htext]
    refine ⟨rfl, mapM_reread_self_iff, fun ss hss => ?_, exists_error, fun hshort => ?_⟩
    · exact ⟨sameList_iff_of_mapM hss, forall₂_of_mapM hss⟩
    · exact mapM_reread_self_iff.mpr fun r hr => keepsAmount_of_isShort (hshort r hr)
  · intro stamp tree target shown
    rcases CommandLine.output_records tree target stamp with
      hfails | ⟨doc, rs, hfile, hload, hshown⟩
    · exact Or.inl hfails
    refine Or.inr ⟨doc, rs, hfile, hload, fun destination stamp' => ?_⟩
    intro committed
    have htext : shown.output ∈ jsonTexts rs := by
      rw [hshown]
      simp [jsonTexts]
    have hitem : (doc.item? target.item).isSome := (Document.load_eq_ok_iff.mp hload).1
    have hcommitted := CommandLine.run_commit hfile hitem shown.output destination stamp'
    rw [readList_eq htext] at hcommitted
    refine ⟨hcommitted, fun hkeeps => ?_⟩
    rwa [mapM_reread_self_iff.mpr hkeeps] at hcommitted

/-- A finite amount of sixteen digits comes back as its neighbour: the reader divides by ten the
significand that it has rounded already. -/
theorem records_given_back_neighbour :
    let r : Record := { condition := .level (.ofNat 9007199254740991) }
    let s : Record := { condition := .level (.ofNat 9007199254740990) }
    r.amount.isFinite ∧ (∀ text ∈ jsonTexts [r], readList text = .ok [s]) ∧
      sameList [s] [r] = false := by
  intro r s
  have hamount : r.amount.reread = .ok s.amount := by decide +kernel
  have hfinite : r.amount.isFinite := by decide +kernel
  have hread : r.reread = .ok s := reread_eq_ok_iff.mpr ⟨rfl, fun _ => ⟨hfinite, hamount⟩⟩
  refine ⟨hfinite, fun text htext => ?_, by decide +kernel⟩
  rw [readList_eq htext, List.mapM_cons, hread]
  rfl

end Record

end ItemConditions
