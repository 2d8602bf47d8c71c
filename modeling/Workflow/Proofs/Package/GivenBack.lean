import Mathlib
import Workflow.Package.Generate
import Workflow.Proofs.Package.Consistent
import Workflow.Proofs.Package.SnakeCase

/-!
# Names given back

The identifier of an identifier is itself (`identifierOf_identifierOf`): what is put before digits and after keywords is put there
once. So a package that is generated again under the name of its directory is the same package (`package_given_back`).
-/

namespace Workflow

/-! ## Identifiers of identifiers -/

/-- What becomes of words that are to be an identifier: `n_` before a digit, `_` after a keyword. -/
def identifierOfWords (words : String) : String :=
  let words := if startsWithDigit words then "n_" ++ words else words
  if words ∈ keywords then words ++ "_" else words

/-- The identifier of a name is made of its snake case, or else of the fallback. -/
theorem identifierOf_eq (name fallback : String) :
    identifierOf name fallback = identifierOfWords (if (snakeCase name).isEmpty then fallback else snakeCase name) := rfl

/-- No keyword holds a `_`. -/
theorem not_mem_keywords_of_underscore {s : String} (h : '_' ∈ s.toList) : s ∉ keywords := by
  have hplain : ∀ word ∈ keywords, '_' ∉ word.toList := by decide
  exact fun hs => hplain s hs h

/-- No keyword begins with a digit. -/
theorem startsWithDigit_of_mem_keywords {s : String} (h : s ∈ keywords) : startsWithDigit s = false := by
  have hletter : ∀ word ∈ keywords, startsWithDigit word = false := by decide
  exact hletter s h

/-- Words that neither begin with a digit nor are a keyword stay as they are. -/
theorem identifierOfWords_eq_self {words : String} (hdigit : startsWithDigit words = false) (hkeyword : words ∉ keywords) :
    identifierOfWords words = words := by
  rw [identifierOfWords, hdigit]
  exact if_neg hkeyword

/-- Words that begin with a digit get `n_` before them and nothing after them. -/
theorem identifierOfWords_of_digit {words : String} (h : startsWithDigit words = true) :
    identifierOfWords words = "n_" ++ words := by
  have hmem : '_' ∈ ("n_" ++ words).toList := by
    rw [String.toList_append]
    exact List.mem_append_left _ (by decide)
  rw [identifierOfWords, if_pos h]
  exact if_neg (not_mem_keywords_of_underscore hmem)

/-- A keyword gets `_` after it and nothing before it. -/
theorem identifierOfWords_of_keyword {words : String} (h : words ∈ keywords) : identifierOfWords words = words ++ "_" := by
  rw [identifierOfWords, startsWithDigit_of_mem_keywords h]
  exact if_pos h

/-- What was made an identifier stays as it is. -/
theorem identifierOfWords_identifierOfWords (words : String) :
    identifierOfWords (identifierOfWords words) = identifierOfWords words := by
  cases hdigit : startsWithDigit words with
  | true =>
    rw [identifierOfWords_of_digit hdigit]
    refine identifierOfWords_eq_self ?_ (not_mem_keywords_of_underscore ?_)
    · rw [startsWithDigit, String.toList_append]
      rfl
    · rw [String.toList_append]
      exact List.mem_append_left _ (by decide)
  | false =>
    by_cases hkeyword : words ∈ keywords
    · have hmarked : ∀ word ∈ keywords, startsWithDigit (word ++ "_") = false := by decide
      rw [identifierOfWords_of_keyword hkeyword]
      refine identifierOfWords_eq_self (hmarked words hkeyword) (not_mem_keywords_of_underscore ?_)
      rw [String.toList_append]
      exact List.mem_append_right _ (by decide)
    · rw [identifierOfWords_eq_self hdigit hkeyword, identifierOfWords_eq_self hdigit hkeyword]

/-- The snake case of the identifier that was made of a snake case becomes that identifier again: what was put before it is a word,
and what was put after it is dropped and put there once more. -/
theorem identifierOfWords_snakeCase {name : String} (h : snakeCase name ≠ "") :
    identifierOfWords (snakeCase (identifierOfWords (snakeCase name))) = identifierOfWords (snakeCase name) := by
  cases hdigit : startsWithDigit (snakeCase name) with
  | true =>
    have hn : IsWord "n".toList := ⟨List.cons_ne_nil _ _, List.forall_mem_singleton.mpr ⟨rfl, rfl⟩⟩
    have hsnake : snakeCase ("n_" ++ snakeCase name) = "n_" ++ snakeCase name := snakeCase_word_append hn h
    rw [identifierOfWords_of_digit hdigit, hsnake, ← identifierOfWords_of_digit hdigit, identifierOfWords_identifierOfWords]
  | false =>
    by_cases hkeyword : snakeCase name ∈ keywords
    · rw [identifierOfWords_of_keyword hkeyword, snakeCase_append_underscore, snakeCase_snakeCase,
        identifierOfWords_of_keyword hkeyword]
    · rw [identifierOfWords_eq_self hdigit hkeyword, snakeCase_snakeCase, identifierOfWords_eq_self hdigit hkeyword]

/-- Identifiers are not empty, unless the words they are made of are. -/
theorem identifierOfWords_ne_empty {words : String} (h : words ≠ "") : identifierOfWords words ≠ "" := by
  cases hdigit : startsWithDigit words with
  | true =>
    rw [identifierOfWords_of_digit hdigit]
    exact fun hempty => h (String.append_eq_empty_iff.mp hempty).2
  | false =>
    by_cases hkeyword : words ∈ keywords
    · rw [identifierOfWords_of_keyword hkeyword]
      exact fun hempty => h (String.append_eq_empty_iff.mp hempty).1
    · rwa [identifierOfWords_eq_self hdigit hkeyword]

/-- The identifier of an identifier is itself, if the fallback stays as it is. -/
theorem identifierOf_identifierOf (name : String) {fallback : String} (h : identifierOf fallback fallback = fallback) :
    identifierOf (identifierOf name fallback) fallback = identifierOf name fallback := by
  -- The fallback, too, was made an identifier, of whatever words.
  have hfallback : identifierOfWords fallback = fallback := by
    have hmade := identifierOf_eq fallback fallback
    rw [h] at hmade
    rw [hmade, identifierOfWords_identifierOfWords]
  by_cases hname : snakeCase name = ""
  · have hempty : identifierOf name fallback = fallback := by
      rw [identifierOf_eq, if_pos (String.isEmpty_iff.mpr hname), hfallback]
    rw [hempty, h]
  · have hmade : identifierOf name fallback = identifierOfWords (snakeCase name) := by
      rw [identifierOf_eq, if_neg (mt String.isEmpty_iff.mp hname)]
    rw [hmade, identifierOf_eq]
    split
    · next hgone =>
      -- An identifier made of words has words.
      exfalso
      have hback := identifierOfWords_snakeCase hname
      rw [String.isEmpty_iff.mp hgone, identifierOfWords_eq_self (by decide) (by decide)] at hback
      exact identifierOfWords_ne_empty hname hback.symm
    · exact identifierOfWords_snakeCase hname

/-! ## Packages given their own name -/

/-- The same options with a name for the package. -/
def Options.naming (options : Options) (name : String) : Options := { options with moduleName := some name }

/-- Options under which the package has the same name give the same layout. -/
theorem Layout.ofGraph_congr {g : Graph} {options options' : Options}
    (h : identifierOf (options.moduleName.getD g.name) "workflow" = identifierOf (options'.moduleName.getD g.name) "workflow") :
    ofGraph g options = ofGraph g options' := by
  rw [ofGraph, ofGraph, h]

/-- A layout under the name of its own package is the same. -/
theorem Layout.ofGraph_naming (g : Graph) (options : Options) :
    ofGraph g (options.naming (ofGraph g options).module) = ofGraph g options := by
  refine ofGraph_congr ?_
  rw [module_ofGraph, Options.naming, Option.getD_some]
  exact identifierOf_identifierOf _ (by decide)

/-- The name of a package stands in its files by the layout alone. -/
theorem Package.artifacts_naming {g : Graph} {options : Options} {name : String}
    (h : Layout.ofGraph g (options.naming name) = Layout.ofGraph g options) :
    artifacts g (options.naming name) = artifacts g options := by
  rw [artifacts, h]
  rfl

open Package

/-- The name of a package can be given back. The identifier of an identifier is itself, whatever the name was, for every fallback
that stays as it is. So the directory that the files of a package share, given as the name of the package, gives the same files with
the same contents in the same order. -/
theorem package_given_back :
    (∀ name fallback, identifierOf fallback fallback = fallback →
      identifierOf (identifierOf name fallback) fallback = identifierOf name fallback) ∧
    ∀ d g options files, Graph.build d = .ok g → generate g options = .ok files →
      ∃ directory, packageRoot none files = .ok directory ∧
        generate g { options with moduleName := some directory } = .ok files := by
  refine ⟨fun name fallback => identifierOf_identifierOf name, fun d g options files _ hgenerate => ?_⟩
  obtain ⟨hdefect, rfl⟩ := generate_eq_ok_iff.mp hgenerate
  refine ⟨(Layout.ofGraph g options).module, packageRoot_artifacts, ?_⟩
  exact generate_eq_ok_iff.mpr ⟨hdefect, artifacts_naming (Layout.ofGraph_naming g options)⟩

/-- A workflow that is called by a keyword: its package has a `_` at the end of its name, which is dropped and put there again. -/
def keywordNamed : Document := { namesakes with name := "Class" }

/-- The names of its package and of its nodes can be given back. -/
theorem package_given_back_keywordNamed :
    (identifierOf "node" "node" = "node" ∧ identifierOf "3x" "node" = "n_3x" ∧ identifierOf "n_3x" "node" = "n_3x") ∧
      ∃ g files, Graph.build keywordNamed = .ok g ∧ generate g {} = .ok files ∧ packageRoot none files = .ok "class_" ∧
        generate g { moduleName := some "class_" } = .ok files := by
  have hnode : identifierOf "node" "node" = "node" := by decide
  have hdigit : identifierOf "3x" "node" = "n_3x" := by decide
  have hback := package_given_back.1 "3x" "node" hnode
  rw [hdigit] at hback
  obtain ⟨g, hg⟩ : ∃ g, Graph.build keywordNamed = .ok g := ⟨_, rfl⟩
  obtain ⟨files, hfiles⟩ : ∃ files, generate g {} = .ok files := by
    cases hg
    exact ⟨_, rfl⟩
  have hmodule : (Layout.ofGraph g {}).module = "class_" := by
    cases hg
    decide
  obtain ⟨directory, hroot, hgiven⟩ := package_given_back.2 keywordNamed g {} files hg hfiles
  have hdirectory : directory = "class_" := by
    rw [← (generate_eq_ok_iff.mp hfiles).2, packageRoot_artifacts, hmodule] at hroot
    exact (Except.ok.inj hroot).symm
  subst hdirectory
  exact ⟨⟨hnode, hdigit, hback⟩, g, files, hg, hfiles, hroot, hgiven⟩

end Workflow
