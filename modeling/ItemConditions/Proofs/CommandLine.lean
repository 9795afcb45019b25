import ItemConditions.CommandLine.Run
import ItemConditions.Proofs.FileTree.Items

/-!
# What a run does to files

A run reads, computes and checks everything before it writes. A run that edits a document depends on
where the document goes only in its last step, which prints it, writes it to a file, or writes it
over its own file behind a copy. So the three ways out carry the same text, and a run that fails
leaves the tree as it was, unless the system refuses something behind the backup: then a run in
place leaves the copy of its file, and a backup leaves its archive unfinished.

## Main definitions

* `CommandLine.Command.edited?`: what a command edits, and where the document goes
* `CommandLine.Command.redirect`: the same command with its document sent elsewhere
* `CommandLine.Command.backups`: the paths of the backups that a run makes
* `CommandLine.Destination.Leaves`, `CommandLine.Command.Leaves`: what a run that succeeds leaves
* `CommandLine.Command.Abandons`: what a run leaves that fails behind its backup
* `CommandLine.Command.runAll`: the tree after some commands
* `CommandLine.Delivers`: runs that differ only in where a document goes

## Main results

* `CommandLine.deliver_spec`: the last step of a run
* `CommandLine.Command.delivers_of_edited?`: runs that edit differ in their last step only
* `CommandLine.Command.run_cases`: a run fails, fails behind its backup, or succeeds
* `CommandLine.Command.isSound_runAll`: a tree stays as a system has it
* `CommandLine.Command.itemFiles_runAll`: the item files that are found in it
* `CommandLine.Command.run_harmless`: what a run does to files
-/

namespace ItemConditions.CommandLine

/-! ## What a run leaves -/

/-- **What an edited document leaves** where it goes: nothing, a file, or its own file with a copy
of the former contents beside it. -/
def Destination.Leaves (file stamp text : Text) (tree after : FileTree) : Destination → Prop
  | .printed => after = tree
  | .file path => ∃ place, tree.follow path = .ok place ∧
    tree.Writes after [(place, .bytes (Utf8.encode text))]
  | .inPlace => ∃ place copy c, tree.follow file = .ok place ∧ tree.node? place = some (.file c) ∧
    tree.follow (FileTree.copyPath file stamp) = .ok copy ∧ tree.node? copy = none ∧
    tree.Writes after [(copy, c), (place, .bytes (Utf8.encode text))]

namespace Command

/-- What a command edits, and where the edited document goes. -/
def edited? : Command → Option (Target × Destination)
  | .commit target _ d | .add target _ d | .edit target _ _ d | .delete target _ d
  | .spread target d => some (target, d)
  | _ => none

/-- **The same command with its edited document sent elsewhere.** -/
def redirect (d : Destination) : Command → Command
  | .commit target given _ => .commit target given d
  | .add target changes _ => .add target changes d
  | .edit target index changes _ => .edit target index changes d
  | .delete target index _ => .delete target index d
  | .spread target _ => .spread target d
  | command => command

/-- **The paths of the backups** that a run makes. -/
def backups (stamp : Text) : Command → List Text
  | .commit target _ .inPlace | .add target _ .inPlace | .edit target _ _ .inPlace
  | .delete target _ .inPlace | .spread target .inPlace => [FileTree.copyPath target.file stamp]
  | .backup directory => [FileTree.archivePath directory stamp]
  | _ => []

/-- What a run that succeeds leaves. Listings leave everything as it was, a backup one archive
that was not there, and an edited document what its destination says. -/
def Leaves (stamp text : Text) (tree after : FileTree) : Command → Prop
  | .commit target _ d | .add target _ d | .edit target _ _ d | .delete target _ d
  | .spread target d => d.Leaves target.file stamp text tree after
  | .backup directory => ∃ place archive, tree.follow directory = .ok place ∧
    tree.follow (FileTree.archivePath directory stamp) = .ok archive ∧
    tree.node? archive = none ∧ tree.Writes after [(archive, .archive (tree.entries place))]
  | .items _ | .paths .. | .records .. | .dump .. | .scan _ => after = tree

/-- What a run in place leaves that cannot write its file: the copy that was made of it. -/
def LeavesCopy (file stamp : Text) (tree after : FileTree) : Prop :=
  ∃ place copy c reason, tree.follow file = .ok place ∧ tree.node? place = some (.file c) ∧
    Entries.get? place tree.unwritable = some reason ∧
    tree.follow (FileTree.copyPath file stamp) = .ok copy ∧ tree.node? copy = none ∧
    tree.Writes after [(copy, c)]

/-- What a backup leaves that cannot read an item file: the archive up to there. -/
def LeavesUnfinished (directory stamp : Text) (tree after : FileTree) : Prop :=
  ∃ place target archive e, tree.follow directory = .ok place ∧
    tree.IsUnfinished place (tree.itemFiles place) archive e ∧
    tree.follow (FileTree.archivePath directory stamp) = .ok target ∧ tree.node? target = none ∧
    tree.Writes after [(target, .archive archive)]

/-- What a run leaves that fails behind its backup. -/
def Abandons (stamp : Text) (tree after : FileTree) : Command → Prop
  | .commit target _ .inPlace | .add target _ .inPlace | .edit target _ _ .inPlace
  | .delete target _ .inPlace | .spread target .inPlace => LeavesCopy target.file stamp tree after
  | .backup directory => LeavesUnfinished directory stamp tree after
  | _ => False

end Command

/-! ## The last step -/

variable {stamp file : Text} {tree : FileTree}

/-- A run that fails leaves the tree as it was. -/
structure Outcome.Fails (tree : FileTree) (o : Outcome) : Prop where
  code : o.code ≠ 0
  tree : o.tree = tree

theorem Outcome.fails_failed (tree : FileTree) (code : Nat) (message : String) (notes : Text) :
    (failed tree (code + 1) message notes).Fails tree := ⟨code.succ_ne_zero, rfl⟩

/-- The last step of a run fails and changes nothing, or leaves what the destination says. In
place the copy comes first, and is left behind if the file cannot be written then. -/
theorem deliver_spec (htree : tree.IsTree) (destination : Destination)
    (hfresh : destination = .inPlace → tree.at? (FileTree.copyPath file stamp) = none)
    (doc : Document) (notes : Text) :
    let o := deliver stamp tree file destination doc notes
    o.Fails tree ∨
      (o.code = 5 ∧ destination = .inPlace ∧ Command.LeavesCopy file stamp tree o.tree) ∨
      (o.code = 0 ∧ destination.Leaves file stamp doc.toYaml tree o.tree) := by
  intro o
  cases destination with
  | printed => exact Or.inr (Or.inr ⟨rfl, rfl⟩)
  | file path =>
    cases hstore : doc.store tree path with
    | error e =>
      have ho : o = .failed tree 5 ("error writing: " ++ e.message) notes := by
        simp only [o, deliver, hstore]
      exact Or.inl (ho ▸ Outcome.fails_failed tree _ _ notes)
    | ok after =>
      have ho : o = { errors := notes, tree := after } := by simp only [o, deliver, hstore]
      obtain ⟨place, hopened, rfl⟩ := FileTree.write_eq_ok_iff.mp hstore
      refine Or.inr (Or.inr ?_)
      rw [ho]
      exact ⟨rfl, place, (FileTree.opened_eq_ok_iff.mp hopened).2.1,
        FileTree.writes_put (FileTree.ne_nil_of_opened hopened) _⟩
  | inPlace =>
    cases hcopied : tree.copyBeside file stamp with
    | error e =>
      have ho : o = .failed tree 5 ("backup failed: " ++ e.message) notes := by
        simp only [o, deliver, hcopied]
      exact Or.inl (ho ▸ Outcome.fails_failed tree _ _ notes)
    | ok copied =>
      obtain ⟨p, after⟩ := copied
      obtain ⟨place, copy, c, hplace, hfile, hcopy, rfl⟩ := FileTree.exists_of_copyBeside hcopied
      have hfollow := (FileTree.opened_eq_ok_iff.mp hcopy).2.1
      have hnone := FileTree.node?_of_at?_eq_none (hfresh rfl) hfollow
      have hroot := FileTree.ne_nil_of_node?_eq_none hnone
      have hopened := FileTree.opened_put htree hplace hfile hcopy hnone (d := c)
      cases hreason : Entries.get? place tree.unwritable with
      | some reason =>
        rw [FileTree.permit, hreason] at hopened
        have hstore : doc.store (tree.put copy (.file c)) file = .error (.refused reason) := by
          rw [Document.store, FileTree.write, hopened]
        have ho : o = .failed (tree.put copy (.file c)) 5
            ("error writing: " ++ (FileError.refused reason).message) notes := by
          simp only [o, deliver, hcopied, hstore]
        refine Or.inr (Or.inl ?_)
        rw [ho]
        exact ⟨rfl, rfl, place, copy, c, reason, hplace, hfile, hreason, hfollow, hnone,
          FileTree.writes_put hroot c⟩
      | none =>
        rw [FileTree.permit, hreason] at hopened
        have hstore : doc.store (tree.put copy (.file c)) file
            = .ok ((tree.put copy (.file c)).put place (.file doc.toContents)) := by
          rw [Document.store, FileTree.write, hopened]
        have ho : o = { errors := notes
                        tree := (tree.put copy (.file c)).put place (.file doc.toContents) } := by
          simp only [o, deliver, hcopied, hstore]
        have hne : copy ≠ place := by
          rintro rfl
          rw [hfile] at hnone
          simp at hnone
        have hroot' : place ≠ [] := by
          rintro rfl
          simp [FileTree.node?] at hfile
        refine Or.inr (Or.inr ?_)
        rw [ho]
        exact ⟨rfl, place, copy, c, hplace, hfile, hfollow, hnone,
          FileTree.writes_put_put hroot hroot' hne c _⟩

/-- The last step of a run writes one file after the other. -/
theorem reaches_deliver (destination : Destination) (doc : Document) (notes : Text) :
    tree.Reaches (deliver stamp tree file destination doc notes).tree := by
  cases destination with
  | printed => exact .refl
  | file path =>
    rw [deliver]
    split
    · next after hstore => exact .write .refl hstore
    · exact .refl
  | inPlace =>
    rw [deliver]
    split
    · exact .refl
    · next p mid hcopied =>
      obtain ⟨place, copy, c, -, -, hcopy, rfl⟩ := FileTree.exists_of_copyBeside hcopied
      split
      · next after hstore => exact .write (FileTree.reaches_put hcopy _) hstore
      · exact FileTree.reaches_put hcopy _

/-! ## Runs up to their last step -/

/-- Runs that differ only in where a document goes: all of them fail before it is known, or all
of them deliver the same document. -/
def Delivers (stamp : Text) (tree : FileTree) (file : Text) (run : Destination → Outcome) : Prop :=
  (∃ o : Outcome, o.Fails tree ∧ ∀ d, run d = o) ∨
    ∃ doc notes, ∀ d, run d = deliver stamp tree file d doc notes

theorem delivers_failed (code : Nat) (message : String) (notes : Text) :
    Delivers stamp tree file fun _ => .failed tree (code + 1) message notes :=
  Or.inl ⟨_, Outcome.fails_failed tree code message notes, fun _ => rfl⟩

theorem delivers_deliver (doc : Document) (notes : Text) :
    Delivers stamp tree file fun d => deliver stamp tree file d doc notes :=
  Or.inr ⟨doc, notes, fun _ => rfl⟩

theorem delivers_withDocument {source : Text} {k : Destination → Document → Outcome}
    (h : ∀ doc, Delivers stamp tree file fun d => k d doc) :
    Delivers stamp tree file fun d => withDocument tree source (k d) := by
  unfold withDocument
  cases Document.ofFile tree source with
  | ok doc => exact h doc
  | error e => exact delivers_failed _ _ _

theorem delivers_withSession {target : Target} {k : Destination → Document → Session → Outcome}
    (h : ∀ doc session, Delivers stamp tree file fun d => k d doc session) :
    Delivers stamp tree file fun d => withSession tree target (k d) := by
  refine delivers_withDocument fun doc => ?_
  cases Session.start doc target.item target.path with
  | ok session => exact h doc session
  | error e => exact delivers_failed _ _ _

theorem delivers_commitSession (target : Target) (doc : Document) (session : Session) :
    Delivers stamp tree target.file fun d => commitSession stamp tree target d doc session := by
  unfold commitSession
  cases (session.commit doc).answer with
  | ok committed => exact delivers_deliver _ _
  | error e => exact delivers_failed _ _ _

namespace Command

variable {command : Command} {target : Target} {destination : Destination}

/-- Runs that edit differ in their last step only. -/
theorem delivers_of_edited? (h : command.edited? = some (target, destination)) :
    Delivers stamp tree target.file fun d => (command.redirect d).run stamp tree := by
  cases command with
  | commit target' given _ =>
    obtain ⟨rfl, rfl⟩ := Prod.mk.inj (Option.some.inj h)
    simp only [redirect, run]
    refine delivers_withDocument fun doc => ?_
    cases Record.readList given with
    | error e => exact delivers_failed _ _ _
    | ok rs =>
      simp only
      cases (doc.commit target'.item target'.path rs).answer with
      | error e => exact delivers_failed _ _ _
      | ok committed => exact delivers_deliver _ _
  | add target' changes _ =>
    obtain ⟨rfl, rfl⟩ := Prod.mk.inj (Option.some.inj h)
    simp only [redirect, run]
    refine delivers_withSession fun doc session => ?_
    cases session.add.2.edit session.add.1 changes.apply with
    | error e => exact delivers_failed _ _ _
    | ok session => exact delivers_commitSession target' doc session
  | edit target' index changes _ =>
    obtain ⟨rfl, rfl⟩ := Prod.mk.inj (Option.some.inj h)
    simp only [redirect, run]
    refine delivers_withSession fun doc session => ?_
    cases session.edit index changes.apply with
    | error e => exact delivers_failed _ _ _
    | ok session => exact delivers_commitSession target' doc session
  | delete target' index _ =>
    obtain ⟨rfl, rfl⟩ := Prod.mk.inj (Option.some.inj h)
    simp only [redirect, run]
    refine delivers_withSession fun doc session => ?_
    cases session.delete index with
    | error e => exact delivers_failed _ _ _
    | ok deleted => exact delivers_commitSession target' doc deleted.2
  | spread target' _ =>
    obtain ⟨rfl, rfl⟩ := Prod.mk.inj (Option.some.inj h)
    simp only [redirect, run]
    refine delivers_withSession fun doc session => ?_
    cases (session.spread doc).answer with
    | error e => exact delivers_failed _ _ _
    | ok spread => exact delivers_deliver _ _
  | _ => simp [edited?] at h

theorem redirect_of_edited? (h : command.edited? = some (target, destination)) :
    command.redirect destination = command := by
  cases command <;> simp_all [edited?, redirect]

theorem leaves_of_edited? (h : command.edited? = some (target, destination)) (text : Text)
    (after : FileTree) : command.Leaves stamp text tree after ↔
      destination.Leaves target.file stamp text tree after := by
  cases command <;> simp_all [edited?, Leaves]

theorem abandons_of_edited? (h : command.edited? = some (target, .inPlace)) (after : FileTree) :
    command.Abandons stamp tree after ↔ LeavesCopy target.file stamp tree after := by
  cases command <;> simp_all [edited?, Abandons]

theorem copyPath_mem_backups (h : command.edited? = some (target, .inPlace)) :
    FileTree.copyPath target.file stamp ∈ command.backups stamp := by
  cases command <;> simp_all [edited?, backups]

/-! ## Listings -/

theorem tree_withDocument {k : Document → Outcome} (h : ∀ doc, (k doc).tree = tree) :
    (withDocument tree file k).tree = tree := by
  unfold withDocument
  split
  · exact h _
  · rfl

theorem tree_withSession {target : Target} {k : Document → Session → Outcome}
    (h : ∀ doc session, (k doc session).tree = tree) :
    (withSession tree target k).tree = tree := by
  refine tree_withDocument fun doc => ?_
  split
  · exact h _ _
  · rfl

/-- A listing leaves the tree as it was, whether it succeeds or not. -/
theorem tree_run_of_listing (h : command.edited? = none)
    (hbackup : ∀ directory, command ≠ .backup directory) :
    (command.run stamp tree).tree = tree := by
  cases command with
  | items file => exact tree_withDocument fun doc => rfl
  | paths file item =>
    refine tree_withDocument fun doc => ?_
    split <;> rfl
  | records target asJson => exact tree_withSession fun doc session => rfl
  | dump file format => exact tree_withDocument fun doc => rfl
  | scan directory =>
    rw [run]
    split <;> rfl
  | backup directory => exact absurd rfl (hbackup directory)
  | _ => simp [edited?] at h

/-! ## Runs -/

/-- A backup fails and changes nothing, leaves its archive unfinished, or adds one archive. -/
theorem run_backup {directory : Text}
    (hfresh : tree.at? (FileTree.archivePath directory stamp) = none) :
    let o := run stamp tree (.backup directory)
    o.Fails tree ∨ (o.code = 5 ∧ LeavesUnfinished directory stamp tree o.tree) ∨
      (o.code = 0 ∧ ∀ text, (backup directory).Leaves stamp text tree o.tree) := by
  intro o
  have hnone {target : FileTree.Place}
      (h : tree.opened (FileTree.archivePath directory stamp) = .ok target) :=
    FileTree.node?_of_at?_eq_none hfresh (FileTree.opened_eq_ok_iff.mp h).2.1
  rcases FileTree.archiveBeside_cases tree directory stamp with
    ⟨fault, hfault, hleft⟩ | ⟨place, target, hplace, htarget, hmade | ⟨archive, e, hunfinished, hleft⟩⟩
  · have ho : o = .failed tree 5 fault.message [] := by simp only [o, run, hfault, hleft]
    exact Or.inl (ho ▸ Outcome.fails_failed tree _ _ [])
  · have ho : o = { output := FileTree.archivePath directory stamp ++ ['\n']
                    tree := tree.put target (.file (.archive (tree.entries place))) } := by
      simp only [o, run, hmade]
    refine Or.inr (Or.inr ?_)
    rw [ho]
    exact ⟨rfl, fun _ => ⟨place, target, hplace, (FileTree.opened_eq_ok_iff.mp htarget).2.1,
      hnone htarget, FileTree.writes_put (FileTree.ne_nil_of_opened htarget) _⟩⟩
  · have ho : o = .failed (tree.put target (.file (.archive archive))) 5 e.message [] := by
      simp only [o, run, hleft]
      rfl
    refine Or.inr (Or.inl ?_)
    rw [ho]
    exact ⟨rfl, place, target, archive, e, hplace, hunfinished,
      (FileTree.opened_eq_ok_iff.mp htarget).2.1, hnone htarget,
      FileTree.writes_put (FileTree.ne_nil_of_opened htarget) _⟩

/-- A run that edits fails and changes nothing, leaves its copy behind, or leaves the text that
it prints where it is told to. -/
theorem run_of_edited? (htree : tree.IsTree) (h : command.edited? = some (target, destination))
    (hfresh : ∀ path ∈ command.backups stamp, tree.at? path = none) :
    let o := command.run stamp tree
    let printed := (command.redirect .printed).run stamp tree
    o.Fails tree ∨ (o.code = 5 ∧ command.Abandons stamp tree o.tree) ∨
      (o.code = 0 ∧ printed.code = 0 ∧ command.Leaves stamp printed.output tree o.tree) := by
  intro o printed
  have hself : o = (command.redirect destination).run stamp tree := by rw [redirect_of_edited? h]
  have hdelivers : Delivers stamp tree target.file fun d => (command.redirect d).run stamp tree :=
    delivers_of_edited? h
  rcases hdelivers with ⟨failed, hfailed, hrun⟩ | ⟨doc, notes, hrun⟩
  · have ho : o = failed := hself.trans (hrun destination)
    exact Or.inl (ho ▸ hfailed)
  · have ho : o = deliver stamp tree target.file destination doc notes :=
      hself.trans (hrun destination)
    have hprinted : printed = deliver stamp tree target.file .printed doc notes := hrun .printed
    have hcopy : destination = .inPlace →
        tree.at? (FileTree.copyPath target.file stamp) = none := by
      rintro rfl
      exact hfresh _ (copyPath_mem_backups h)
    rcases deliver_spec htree destination hcopy doc notes with
      hfails | ⟨hcode, rfl, hleft⟩ | ⟨hcode, hleaves⟩
    · exact Or.inl (ho ▸ hfails)
    · rw [ho, abandons_of_edited? h]
      exact Or.inr (Or.inl ⟨hcode, hleft⟩)
    · rw [ho, hprinted, leaves_of_edited? h]
      exact Or.inr (Or.inr ⟨hcode, rfl, hleaves⟩)

/-- A listing leaves everything as it was, and is its own print. -/
theorem run_of_listing (h : command.edited? = none)
    (hbackup : ∀ directory, command ≠ .backup directory) (text : Text) :
    command.redirect .printed = command ∧
      command.Leaves stamp text tree (command.run stamp tree).tree := by
  rw [tree_run_of_listing h hbackup]
  cases command with
  | backup directory => exact absurd rfl (hbackup directory)
  | commit | add | edit | delete | spread => simp [edited?] at h
  | _ => exact ⟨rfl, rfl⟩

/-- A run fails and changes nothing, fails behind its backup, or leaves what it should. -/
theorem run_cases (command : Command) (htree : tree.IsTree)
    (hfresh : ∀ path ∈ command.backups stamp, tree.at? path = none) :
    let o := command.run stamp tree
    let printed := (command.redirect .printed).run stamp tree
    (o.code ≠ 0 ∧ o.tree = tree) ∨ (o.code = 5 ∧ command.Abandons stamp tree o.tree) ∨
      (o.code = 0 ∧ printed.code = 0 ∧ command.Leaves stamp printed.output tree o.tree) := by
  intro o printed
  cases hedited : command.edited? with
  | some edited =>
    obtain ⟨target, destination⟩ := edited
    rcases run_of_edited? htree hedited hfresh with hfails | hother
    · exact Or.inl ⟨hfails.code, hfails.tree⟩
    · exact Or.inr hother
  | none =>
    by_cases hbackup : ∃ directory, command = .backup directory
    · obtain ⟨directory, rfl⟩ := hbackup
      rcases run_backup (hfresh _ List.mem_cons_self) with hfails | hleft | ⟨hcode, hleaves⟩
      · exact Or.inl ⟨hfails.code, hfails.tree⟩
      · exact Or.inr (Or.inl hleft)
      · exact Or.inr (Or.inr ⟨hcode, hcode, hleaves _⟩)
    · rw [not_exists] at hbackup
      obtain ⟨hredirect, hleaves⟩ : command.redirect .printed = command ∧
          command.Leaves stamp printed.output tree o.tree :=
        run_of_listing hedited hbackup printed.output
      by_cases hcode : o.code = 0
      · refine Or.inr (Or.inr ⟨hcode, ?_, hleaves⟩)
        rwa [show printed = o from congrArg (run stamp tree) hredirect]
      · exact Or.inl ⟨hcode, tree_run_of_listing hedited hbackup⟩

/-- Where the system refuses nothing, nothing is left behind. -/
theorem not_abandons {after : FileTree} (command : Command) (htree : tree.IsSound)
    (hreadable : tree.unreadable = []) (hwritable : tree.unwritable = []) :
    ¬ command.Abandons stamp tree after := by
  have hcopy (file : Text) : ¬ LeavesCopy file stamp tree after := by
    rintro ⟨place, copy, c, reason, -, -, hreason, -⟩
    simp [hwritable, Entries.get?] at hreason
  have hbackup (directory : Text) : ¬ LeavesUnfinished directory stamp tree after := by
    rintro ⟨place, target, archive, e, -, ⟨before, names, more, hfiles, -, hnames, -⟩, -⟩
    have hmem : names ∈ tree.itemFiles place := by simp [hfiles]
    have hitem := (FileTree.mem_itemFiles_iff htree).mp hmem
    obtain ⟨c, hc⟩ := hitem.exists_contentsAt (by simp [hreadable, Entries.get?])
    rw [hc] at hnames
    simp at hnames
  unfold Abandons
  split
  all_goals first | exact hcopy _ | exact hbackup _ | exact id

/-- A run writes one file after the other. -/
theorem reaches_run (command : Command) : tree.Reaches (command.run stamp tree).tree := by
  cases hedited : command.edited? with
  | some edited =>
    obtain ⟨target, destination⟩ := edited
    rw [← redirect_of_edited? hedited]
    have hdelivers : Delivers stamp tree target.file fun d => (command.redirect d).run stamp tree :=
      delivers_of_edited? hedited
    rcases hdelivers with ⟨failed, hfailed, hrun⟩ | ⟨doc, notes, hrun⟩
    · have ho : (command.redirect destination).run stamp tree = failed := hrun destination
      rw [ho, hfailed.tree]
      exact .refl
    · have ho : (command.redirect destination).run stamp tree
          = deliver stamp tree target.file destination doc notes := hrun destination
      rw [ho]
      exact reaches_deliver destination doc notes
  | none =>
    by_cases hbackup : ∃ directory, command = .backup directory
    · obtain ⟨directory, rfl⟩ := hbackup
      rcases FileTree.archiveBeside_cases tree directory stamp with
        ⟨fault, hfault, hleft⟩ | ⟨place, target, -, htarget, hmade | ⟨archive, e, -, hleft⟩⟩
      · simp only [run, hfault, hleft]
        exact .refl
      · simp only [run, hmade]
        exact FileTree.reaches_put htarget _
      · simp only [run, hleft]
        exact FileTree.reaches_put htarget _
    · rw [tree_run_of_listing hedited (not_exists.mp hbackup)]
      exact .refl

/-- A tree stays as a system has it when a command runs on it. -/
theorem isSound_run (command : Command) (stamp : Text) (htree : tree.IsSound) :
    (command.run stamp tree).tree.IsSound :=
  htree.of_reaches (reaches_run command)

/-- The tree after some commands, one after the other, each with its stamp. -/
def runAll (tree : FileTree) (commands : List (Text × Command)) : FileTree :=
  commands.foldl (fun tree (stamp, command) => (command.run stamp tree).tree) tree

/-- **A tree stays as a system has it**, whatever is run on it. -/
theorem isSound_runAll (htree : tree.IsSound) (commands : List (Text × Command)) :
    (runAll tree commands).IsSound := by
  induction commands generalizing tree with
  | nil => exact htree
  | cons command commands ih => exact ih (isSound_run command.2 command.1 htree)

/-- **The item files that are found** after any commands are those that stand there then, in order
and none twice. -/
theorem itemFiles_runAll (htree : tree.IsSound) (commands : List (Text × Command))
    (place : FileTree.Place) :
    let after := runAll tree commands
    (∀ names, names ∈ after.itemFiles place ↔ after.IsItemAt (place ++ names)) ∧
      (after.itemFiles place).Pairwise FileTree.Precedes := by
  intro after
  have hsound : after.IsSound := isSound_runAll htree commands
  exact ⟨fun names => FileTree.mem_itemFiles_iff hsound,
    FileTree.pairwise_itemFiles hsound.distinct place⟩

/-- **What a run does to files.** A run that fails leaves the tree as it was, or it fails with the
code 5 behind its backup: a run in place whose file cannot be written leaves the copy of the file,
and a backup that cannot read an item file leaves its archive unfinished. Where the system refuses
nothing, a run that fails leaves the tree as it was. A listing that succeeds does so too, a backup
adds one archive, and a command that edits changes nothing, the named file only, or its own file
behind a copy of the former contents that was not there. Whichever way an edited document goes, it
is the text that the same command prints. The names of the backups may not be taken. -/
theorem run_harmless (command : Command) (stamp : Text) {tree : FileTree} (htree : tree.IsTree)
    (hfresh : ∀ path ∈ command.backups stamp, tree.at? path = none) :
    let o := command.run stamp tree
    let printed := (command.redirect .printed).run stamp tree
    (o.code ≠ 0 → o.tree = tree ∨ o.code = 5 ∧ command.Abandons stamp tree o.tree) ∧
    (tree.IsSound → tree.unreadable = [] → tree.unwritable = [] → o.code ≠ 0 → o.tree = tree) ∧
    (o.code = 0 → printed.code = 0 ∧ command.Leaves stamp printed.output tree o.tree) := by
  intro o printed
  rcases run_cases command htree hfresh with ⟨hcode, hsame⟩ | ⟨hcode, hleft⟩ | ⟨hcode, hleaves⟩
  · exact ⟨fun _ => Or.inl hsame, fun _ _ _ _ => hsame, fun hzero => absurd hzero hcode⟩
  · refine ⟨fun _ => Or.inr ⟨hcode, hleft⟩, fun hsound hreadable hwritable => ?_, fun hzero => ?_⟩
    · exact absurd hleft (not_abandons command hsound hreadable hwritable)
    · exact absurd (hcode.symm.trans hzero) (by decide)
  · exact ⟨fun hfails => absurd hcode hfails, fun _ _ _ hfails => absurd hcode hfails,
      fun _ => hleaves⟩

/-- An archive of the one item file of a directory is put beside the directory. -/
theorem run_harmless_backup :
    let file : FileTree.Contents := .bytes (Utf8.encode "gem: {}\n".toList)
    let tree : FileTree :=
      { nodes := [([['d']], .directory), ([['d'], "a.yml".toList], .file file)] }
    let after := (run "1".toList tree (.backup ['d'])).tree
    (run "1".toList tree (.backup ['d'])).code = 0 ∧
      tree.Writes after [(["d_1.zip".toList], .archive [("a.yml".toList, file.toBytes)])] := by
  intro file tree after
  have htree : tree.IsTree := FileTree.isTree_of_nodes (by decide)
  have hfresh : ∀ path ∈ (backup ['d']).backups "1".toList, tree.at? path = none := by decide
  have hcode : (run "1".toList tree (.backup ['d'])).code = 0 := by decide +kernel
  obtain ⟨-, place, archive, hplace, harchive, -, hwrites⟩ :=
    (run_harmless (.backup ['d']) "1".toList htree hfresh).2.2 hcode
  obtain rfl : [['d']] = place := by
    have hfollow : tree.follow ['d'] = .ok [['d']] := by decide
    exact Except.ok.inj (hfollow.symm.trans hplace)
  obtain rfl : ["d_1.zip".toList] = archive := by
    have hfollow : tree.follow (FileTree.archivePath ['d'] "1".toList)
      = .ok ["d_1.zip".toList] := by decide
    exact Except.ok.inj (hfollow.symm.trans harchive)
  have hentries : tree.entries [['d']] = [("a.yml".toList, file.toBytes)] := by decide +kernel
  rw [hentries] at hwrites
  exact ⟨hcode, hwrites⟩

/-- A run that fails may leave its backup: the copy of a file that cannot be written, and an
archive without the second of its two item files, which cannot be read. -/
theorem backups_left_behind :
    let denied := "Permission denied (os error 13)"
    let file : FileTree.Contents := .bytes (Utf8.encode "a: {b: x}".toList)
    let tree : FileTree :=
      { nodes := [(["a.yml".toList], .file file), (["d".toList], .directory),
          (["d".toList, "a.yml".toList], .file file), (["d".toList, "b.yml".toList], .file file)]
        unreadable := [(["d".toList, "b.yml".toList], denied)]
        unwritable := [(["a.yml".toList], denied)] }
    let edit : Command := .commit ⟨"a.yml".toList, ['a'], ⟨[['b']]⟩⟩ "[]".toList .inPlace
    let backup : Command := .backup "d".toList
    let copied := tree.put ["a.yml.1.bak".toList] (.file file)
    let archived := tree.put ["d_1.zip".toList]
      (.file (.archive [("a.yml".toList, file.toBytes), ("b.yml".toList, [])]))
    tree.IsSound ∧ (∀ path ∈ edit.backups ['1'] ++ backup.backups ['1'], tree.at? path = none) ∧
      (edit.run ['1'] tree).code = 5 ∧ (edit.run ['1'] tree).tree = copied ∧ copied ≠ tree ∧
      (backup.run ['1'] tree).code = 5 ∧ (backup.run ['1'] tree).tree = archived ∧
      archived ≠ tree := by
  intro denied file tree edit backup copied archived
  have hsound : tree.IsSound :=
    ⟨by decide, FileTree.isTree_of_nodes (by decide), by decide, rfl⟩
  have hdoc : Document.ofFile tree "a.yml".toList
      = .ok ⟨[(['a'], .mapping [(['b'], .string ['x'])])]⟩ := by
    let node : Yaml.Node := .mapping [(.string ['a'], .mapping [(.string ['b'], .string ['x'])])]
    have hread : tree.read "a.yml".toList = .ok "a: {b: x}".toList := rfl
    have hnode : Yaml.Node.ofBody (.ofText "a: {b: x}".toList) = .ok node := rfl
    have hmerged : Yaml.Node.mergedWithin 3 node = .ok node :=
      Yaml.Node.mergedWithin_entry (by decide) (Yaml.Node.mergedWithin_entry (by decide) rfl)
    have hyaml : Yaml.read "a: {b: x}".toList
        = .ok (.mapping [(['a'], .mapping [(['b'], .string ['x'])])]) := by
      rw [Yaml.read, hnode]
      simp only [bind, Except.bind, show node.merged = .ok node from hmerged]
      rfl
    rw [Document.ofFile, hread]
    simp only [Document.ofYaml, hyaml]
    rfl
  have hitems : tree.itemFiles ["d".toList] = [["a.yml".toList], ["b.yml".toList]] :=
    FileTree.itemFiles_of_pairwise (by decide)
  have hunfinished : tree.archiveBeside "d".toList ['1']
      = .error (.unfinished (.refused denied) archived) := by
    rw [FileTree.archiveBeside, show tree.follow "d".toList = .ok ["d".toList] from rfl]
    simp only [hitems]
    rfl
  refine ⟨hsound, by decide, ?_, ?_, by decide, ?_, ?_, by decide⟩
  · simp only [edit, run, withDocument, hdoc]
    decide +kernel
  · simp only [edit, run, withDocument, hdoc]
    decide +kernel
  · simp only [backup, run, hunfinished]
    rfl
  · simp only [backup, run, hunfinished]
    rfl

end Command

end ItemConditions.CommandLine
