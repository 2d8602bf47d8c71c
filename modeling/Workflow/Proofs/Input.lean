import Mathlib
import Workflow.Proofs.Command

/-!
# What a conversion leaves of its input

A conversion works at three entries of one directory, and whatever stands there makes way for the package: a workflow file in the
place of its own package is gone with what stood there (`convert_over_input`). Anywhere else it is what it was, however the conversion
ends (`convert_keeps_input`).
-/

namespace Workflow

open Disk

/-! ## What stays of a disk -/

namespace Disk

variable {d d' : Disk} {links : Nat} {spot goal s : Spot} {names : List String} {places : List Spot}

/-- On the way of a path that leads to something, something stands everywhere. -/
theorem Trail.stand?_ne_none (h : Trail d spot names places goal) (hs : follow d true links spot names = .ok s)
    (hstands : d.stand? s ≠ none) : ∀ p ∈ places, d.stand? p ≠ none := by
  induction h generalizing links with
  | done => exact fun p hp => absurd hp List.not_mem_nil
  | idle hidle _ ih => exact ih (by rwa [follow_idle hidle] at hs)
  | up _ ih => exact ih (by rwa [follow_up] at hs)
  | @down spot goal name rest places hname hplain hrest ih =>
    obtain ⟨-, ⟨rfl, rfl, -, -⟩ | ⟨hdir, hon⟩ | ⟨target, -, hlink, -⟩⟩ := follow_name_eq_ok hname hs
    · cases hrest
      exact List.forall_mem_singleton.mpr hstands
    · exact List.forall_mem_cons.mpr ⟨by rw [hdir]; exact Option.some_ne_none _, ih hon⟩
    · exact absurd hlink (hplain target)
  | @link spot goal name rest places target hname hlink hrest ih =>
    refine List.forall_mem_cons.mpr ⟨by rw [hlink]; exact Option.some_ne_none _, ?_⟩
    obtain ⟨-, ⟨-, rfl, -, hno⟩ | ⟨hdir, -⟩ | ⟨target', left, hlink', -, -, hon⟩⟩ := follow_name_eq_ok hname hs
    · exact absurd hlink (hno.resolve_left Bool.false_ne_true.symm target)
    · rw [hlink] at hdir
      cases hdir
    · rw [hlink, Option.some.injEq, Stand.link.injEq] at hlink'
      subst hlink'
      exact ih hon

/-- A file that stands at a place is found there. -/
theorem find?_of_stand?_file {contents : ByteArray} (h : d.stand? s = some (.file contents)) :
    d.find? s = some (.file contents) := by
  obtain ⟨e, he, hstand⟩ := Option.map_eq_some_iff.mp h
  cases e with
  | file other =>
    rw [he, Stand.file.inj hstand]
  | link target => cases hstand
  | dir children => cases hstand

/-- A path to a file reads the same where everything on its way is what it was. -/
theorem readText_congr {p : Path} {contents : ByteArray} (hs : resolve d true p = .ok s) (hfile : d.stand? s = some (.file contents))
    (htrail : Trail d [] p places goal) (hsame : ∀ q ∈ places, d'.stand? q = d.stand? q) (hplace : s ∈ places) :
    d'.readText p = d.readText p := by
  have hs' : resolve d' true p = .ok s := by rw [htrail.resolve_congr hsame, hs]
  have hfile' : d'.stand? s = some (.file contents) := by rw [hsame s hplace, hfile]
  rw [readText, readText, entryAt_eq_ok_iff.mpr ⟨hs, find?_of_stand?_file hfile⟩,
    entryAt_eq_ok_iff.mpr ⟨hs', find?_of_stand?_file hfile'⟩]

end Disk

namespace Job

variable {j : Job} {d d' : Disk} {places : List Spot} {base s : Spot}

/-- What stands elsewhere than at the three entries is what it was. -/
theorem Frame.stand?_eq (h : j.Frame d places base d') (hown : ¬j.Own base s) (hstands : d.stand? s ≠ none) :
    d'.stand? s = d.stand? s :=
  (h s hown).resolve_right fun hnew => hstands hnew.2.1

/-- Where nothing but directories has appeared, all that stands is what it was. -/
theorem Spread.stand?_eq {p : Path} (h : Spread d p d') (hstands : d.stand? s ≠ none) : d'.stand? s = d.stand? s :=
  (h s).resolve_right fun hnew => hstands hnew.2.1

/-- What stands in the place of the package is what it was, if that is kept. -/
theorem Kept.stand?_eq (h : j.Kept d base d') (hinside : base ++ [j.root] <+: s) : d'.stand? s = d.stand? s := by
  obtain ⟨inside, rfl⟩ := hinside
  rw [Entry.stand?, Entry.stand?, Entry.find?_append d' (base ++ [j.root]), Entry.find?_append d (base ++ [j.root]), h]

end Job

/-- What stands on a disk is what it was after an installation, unless it stands at one of the three entries that the installation
works at; and in the place of the package it is so, too, if the installation fails. -/
theorem stand?_install {d : Disk} {dir : Path} {artifacts : List Artifact} {root : String} {s : Spot} (hordered : d.Ordered)
    (htop : d.stand? [] = some .dir) (hroot : packageRoot none artifacts = .ok root) (hclear : Clear d dir artifacts)
    (hstands : d.stand? s ≠ none)
    (haway : ∀ places base, Trail d [] dir places base → ¬(Job.mk dir root artifacts).Own base s ∨
      base ++ [root] <+: s ∧ ∃ e, (install d dir artifacts).2 = .error e) :
    (install d dir artifacts).1.stand? s = d.stand? s := by
  cases hresult : (install d dir artifacts).2 with
  | ok paths =>
    obtain ⟨places, base, htrail, -, hexact⟩ := exact_of_install htop hroot (hclear root hroot) (Prod.ext rfl hresult)
    rcases haway places base htrail with hown | ⟨-, e, he⟩
    · exact hexact.elsewhere.stand?_eq hown hstands
    · cases hresult.symm.trans he
  | error e =>
    rcases undone_of_install hordered htop hroot (hclear root hroot) hresult with
      ⟨places, base, htrail, hundone⟩ | ⟨-, hspread⟩
    · rcases haway places base htrail with hown | ⟨hinside, -⟩
      · exact hundone.elsewhere.stand?_eq hown hstands
      · exact hundone.kept.stand?_eq hinside
    · exact hspread.stand?_eq hstands

/-! ## Conversions -/

namespace Conversion

variable {d after : Disk} {coloured strict : Bool} {path output : String} {options : Options} {o : Outcome} {s : Spot}
  {contents : ByteArray}

/-- The directory of a package in the place that the path of a directory leads to. -/
def PackagePlace (d : Disk) (path output : String) (strict : Bool) (options : Options) (place : Spot) : Prop :=
  ∃ c places base, Compiles d path strict options c ∧ Trail d [] (Path.ofText output) places base ∧
    place = base ++ [identifierOf (options.moduleName.getD c.summary.name) "workflow"]

/-- A conversion works at a place: there is something to write, and the place is, or is below, one of the three entries that it is
written by. -/
def WorksAt (d : Disk) (path output : String) (strict : Bool) (options : Options) (s : Spot) : Prop :=
  ∃ c places base, Compiles d path strict options c ∧ Trail d [] (Path.ofText output) places base ∧
    (Job.mk (Path.ofText output) (identifierOf (options.moduleName.getD c.summary.name) "workflow") c.artifacts).Own base s

/-- What a conversion leaves of the file that it reads. -/
structure Spared (d : Disk) (path output : String) (strict : Bool) (options : Options) (s : Spot) (contents : ByteArray) (after : Disk)
    (o : Outcome) : Prop where
  uncompiled : (∀ c, ¬Compiles d path strict options c) → after = d
  apart : ¬WorksAt d path output strict options s → after.stand? s = some (.file contents)
  failed : o.status.code ≠ 0 → ∀ place, PackagePlace d path output strict options place → place <+: s →
    after.stand? s = some (.file contents)
  read : (∀ ways goal, Trail d [] (Path.ofText path) ways goal → ∀ t ∈ ways, ¬WorksAt d path output strict options t) →
    after.readText (Path.ofText path) = d.readText (Path.ofText path)

/-- A conversion that leaves what stands in the places of a kind spares its input. -/
theorem spared_of_stays (hinput : resolve d true (Path.ofText path) = .ok s) (hfile : d.stand? s = some (.file contents))
    (htop : d.stand? [] = some .dir) (huncompiled : (∀ c, ¬Compiles d path strict options c) → after = d)
    (hstays : ∀ t, d.stand? t ≠ none → (¬WorksAt d path output strict options t ∨ o.status.code ≠ 0 ∧
      ∃ place, PackagePlace d path output strict options place ∧ place <+: t) → after.stand? t = d.stand? t) :
    Spared d path output strict options s contents after o := by
  have hstands : d.stand? s ≠ none := by rw [hfile]; exact Option.some_ne_none _
  refine ⟨huncompiled, fun hno => ?_, fun hcode place hplace hinside => ?_, fun hways => ?_⟩
  · rw [hstays s hstands (Or.inl hno), hfile]
  · rw [hstays s hstands (Or.inr ⟨hcode, place, hplace, hinside⟩), hfile]
  · have hfollow := follow_of_resolve hinput
    have hall : follow d true mostLinks [] (Path.ofText path ++ []) = .ok s := by rwa [List.append_nil]
    obtain ⟨ways, goal, htrail⟩ := exists_trail_of_follow hall (Or.inr (Or.inl rfl))
    have hmem : s ∈ ways := (htrail.mem_of_follow htop hfollow).resolve_left fun hnil => by
      rw [hnil, htop] at hfile
      cases hfile
    refine readText_congr hinput hfile htrail (fun q hq => hstays q ?_ (Or.inl (hways ways goal htrail q hq))) hmem
    exact htrail.stand?_ne_none hfollow hstands q hq

/-- A conversion spares its input. -/
theorem spared_convertFile (hordered : d.Ordered) (htop : d.stand? [] = some .dir)
    (hclear : ∀ c, Compiles d path strict options c → Clear d (Path.ofText output) c.artifacts)
    (hinput : resolve d true (Path.ofText path) = .ok s) (hfile : d.stand? s = some (.file contents)) :
    Spared d path output strict options s contents (Command.convertFile d coloured path output strict options).1
      (Command.convertFile d coloured path output strict options).2 := by
  cases hread : ofReading strict options (d.readText (Path.ofText path)) with
  | error fault =>
    rw [convertFile_of_error hread]
    exact spared_of_stays hinput hfile htop (fun _ => rfl) fun _ _ _ => rfl
  | ok c =>
    have hc : Compiles d path strict options c := compiles_iff.mpr hread
    have hroot := packageRoot_of_compiles hc
    rw [convertFile_of_ok hread]
    refine spared_of_stays hinput hfile htop (fun hno => absurd hc (hno c)) fun t ht haway => ?_
    refine stand?_install hordered htop hroot (hclear c hc) ht fun places base htrail => ?_
    refine haway.imp (fun hno hown => hno ⟨c, places, base, hc, htrail, hown⟩) fun hfailed => ?_
    obtain ⟨hcode, place, ⟨c', places', base', hc', htrail', rfl⟩, hinside⟩ := hfailed
    obtain rfl : c' = c := Except.ok.inj ((compiles_iff.mp hc').symm.trans hread)
    obtain ⟨rfl, rfl⟩ := htrail'.unique htrail
    refine ⟨hinside, ?_⟩
    cases hresult : (install d (Path.ofText output) c'.artifacts).2 with
    | ok paths =>
      rw [hresult] at hcode
      exact absurd rfl hcode
    | error e => exact ⟨e, rfl⟩

end Conversion

/-! ## Runs -/

/-- However a conversion ends, the file that it reads is what it was, unless there is a package to write and the file stands at one of
the three entries that it is written by; and if the run fails, also a file in the place of the package is what it was. Where the path
of the file does not come through these entries, it still leads to it. All this for directories whose path does not lead through
them. -/
theorem convert_keeps_input {d : Disk} {coloured strict : Bool} {arguments : List String} {path output : String} {options : Options}
    {s : Spot} {contents : ByteArray} (hordered : d.Ordered) (htop : d.stand? [] = some .dir)
    (hconvert : Command.ofArguments arguments = .ok (.convert path output strict options))
    (hclear : ∀ c, Conversion.Compiles d path strict options c → Clear d (Path.ofText output) c.artifacts)
    (hinput : resolve d true (Path.ofText path) = .ok s) (hfile : d.stand? s = some (.file contents)) :
    Conversion.Spared d path output strict options s contents (Command.runArguments d coloured arguments).1
      (Command.runArguments d coloured arguments).2 := by
  rw [Command.runArguments, hconvert]
  exact Conversion.spared_convertFile hordered htop hclear hinput hfile

/-- The text of a workflow of two nodes, as a file. -/
def twoNodesFile : Entry :=
  .file ("name: m\nentry: a\nnodes:\n- id: a\n  kind: start\n- id: b\n  kind: end\nedges:\n- \x7bsource: a, target: b\x7d\n").toUTF8

/-- Beside the file there is nothing in the way of any package. -/
theorem clear_twoNodes (artifacts : List Artifact) : Clear twoNodes ["out"] artifacts := by
  intro root _ places base htrail
  have hout : Trail twoNodes [] ["out"] [["out"]] ["out"] :=
    .down ⟨rfl, by decide⟩ (fun target hlink => nomatch hlink) (.done ["out"])
  obtain ⟨rfl, rfl⟩ := htrail.unique hout
  have hbelow : ∀ name : String, ["out"] ++ [name] ∉ [["out"]] := fun name => by simp
  exact ⟨rfl, hout, hbelow _, hbelow _, hbelow _⟩

/-- A file with a workflow stays where it is while it is converted into a directory beside it. -/
theorem convert_keeps_input_twoNodes :
    let options : Options := { moduleName := none, includeComments := true, framework := .newer }
    let converted := Command.runArguments twoNodes false ["convert", "w.yaml", "--output=out"]
    converted.2.status = .success ∧ ∃ contents, twoNodes.stand? ["w.yaml"] = some (.file contents) ∧
      Conversion.Spared twoNodes "w.yaml" "out" false options ["w.yaml"] contents converted.1 converted.2 := by
  intro options converted
  have hordered : twoNodes.Ordered := by
    simp only [twoNodes, Entry.Ordered, Entry.OrderedAll, Keyed.Ascending]
    decide +kernel
  have hclear : ∀ c, Conversion.Compiles twoNodes "w.yaml" false options c → Clear twoNodes (Path.ofText "out") c.artifacts :=
    fun c _ => clear_twoNodes c.artifacts
  exact ⟨by decide +kernel, _, rfl,
    convert_keeps_input hordered rfl (by decide +kernel) hclear (by decide +kernel) rfl⟩

/-- What stands in the place of the package, or of one of its hidden entries, makes way for the package, the workflow file too. In a
directory that is reached through the place of the package, the file is moved away with what stands there, and the run fails. And
where the directory is reached through a link in the place of a hidden entry, its path leads elsewhere once the link is gone: the
file of another directory makes way. -/
theorem convert_over_input :
    let inPlace : Disk := .dir [("m", .dir [("w.yaml", twoNodesFile)])]
    let besidePlace : Disk := .dir [(".m.previous", twoNodesFile)]
    let elsewhere : Disk := .dir [("m", .dir [("w.yaml", twoNodesFile)]),
      ("t", .dir [(".m.staging", .link "u/v"), ("u", .dir [("v", .dir [])])])]
    let into := Command.runArguments inPlace false ["convert", "m/w.yaml", "--output=."]
    let beside := Command.runArguments besidePlace false ["convert", ".m.previous", "--output=."]
    let through := Command.runArguments inPlace false ["convert", "m/w.yaml", "--output=m/.."]
    let astray := Command.runArguments elsewhere false ["convert", "m/w.yaml", "--output=t/.m.staging/../.."]
    (into.2.status = .success ∧ into.1.stand? ["m", "w.yaml"] = none) ∧
      (beside.2.status = .success ∧ beside.1.stand? [".m.previous"] = none) ∧
      (through.2.status = .badInput ∧ through.1.stand? ["m", "w.yaml"] = none) ∧
      (Disk.resolve elsewhere true (Path.ofText "t/.m.staging/../..") = .ok ["t"] ∧ astray.2.status = .success ∧
        astray.1.stand? ["m", "w.yaml"] = none) := by
  refine ⟨?_, ?_, ?_, ?_⟩ <;> decide +kernel

end Workflow
