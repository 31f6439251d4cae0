import StyleGuide.CommandLine.Run
import StyleGuide.Proofs.Output.Calls

/-!
# The files that a command touches

Everything that can fail in a build comes before its single write: reading the template, making
the output directory, reading and compiling the sources, resolving the name of the output. So a
command that fails leaves the files as they are, though it may have made directories, and so does a
dry run. A build that succeeds changes at most the file that it is asked for, which is below the
output directory (`run_touches_output_only`).
-/

namespace StyleGuide

open FileTree

/-! ### A job -/

/-- What a job does to the files: its writer is the last step, and the only one that writes. -/
theorem BuildJob.file?_run (job : BuildJob) (ws : Workspace) {w : Writer}
    (hfresh : w.finalized = false) :
    (w.dryRun = true ∨ (∀ docs, (job.run ws w).result ≠ .ok docs) →
      ws.tree.SameFiles (job.run ws w).tree) ∧
      ∀ docs, (job.run ws w).result = .ok docs → ∃ s place, job.filename = .str s ∧
        Writer.resolve w.outdir s = .ok place ∧
        ∀ l ≠ place, (job.run ws w).tree.file? l = ws.tree.file? l := by
  unfold run
  dsimp only
  split
  · exact ⟨fun _ => .refl _, fun docs hdocs => absurd hdocs (by simp)⟩
  · next docs _ =>
    split
    · next fault w' tree hmake =>
      obtain ⟨hsame, -⟩ := Writer.file?_make hmake
      exact ⟨fun _ => hsame (.inr (by simp)), fun docs hdocs => absurd hdocs (by simp)⟩
    · next w' tree hmake =>
      obtain ⟨hsame, hother⟩ := Writer.file?_make hmake
      have hfinalize : w'.finalize.1 = .ok w'.summary := by
        rw [Writer.finalize, Writer.finalized_make hmake, hfresh]
        rfl
      rw [hfinalize]
      refine ⟨?_, fun _ _ => hother rfl⟩
      rintro (hdry | hfault)
      · exact hsame (.inl hdry)
      · exact absurd rfl (hfault docs)

/-! ### The place of the output -/

/-- A relative path below another one leads on from the place of that one. -/
theorem Path.normalize_join {p q : Path} (h : q.isAbsolute = false) (cwd : Location) :
    (p.join q).normalize cwd = q.normalize (p.normalize cwd) := by
  have hstart : ∀ l, q.start l = l := fun l => by simp [start, h]
  rw [join, if_neg (by simp [h]), normalize, normalize, normalize, hstart, List.foldl_append]
  rfl

/-! ### Commands -/

namespace CommandLine

/-- The place of the file that a build is asked for. -/
def BuildArgs.place (a : BuildArgs) (cwd : Location) : Location :=
  (a.outputDir.join (.ofString a.filename)).normalize cwd

/-- A build with a new writer changes the file that it is asked for, or nothing. -/
theorem file?_buildWith (ws : Workspace) (a : BuildArgs) (navigation : Option Json) :
    (a.dryRun = true ∨ (∀ docs, (buildWith ws a navigation).result ≠ .ok docs) →
        ws.tree.SameFiles (buildWith ws a navigation).tree) ∧
      ∀ docs, (buildWith ws a navigation).result = .ok docs →
        a.outputDir.normalize ws.cwd <+: a.place ws.cwd ∧
          a.outputDir.normalize ws.cwd ≠ a.place ws.cwd ∧
          ∀ l ≠ a.place ws.cwd, (buildWith ws a navigation).tree.file? l = ws.tree.file? l := by
  unfold buildWith
  split
  · exact ⟨fun _ => .refl _, fun docs hdocs => absurd hdocs (by simp)⟩
  · next w hcreate =>
    obtain ⟨-, -, hw⟩ := Writer.create_eq_ok_iff.mp hcreate
    obtain ⟨hsame, hother⟩ := (a.job ws.cwd navigation).file?_run ws (w := w) (by rw [hw])
    have hdry : w.dryRun = a.dryRun := by rw [hw]
    refine ⟨fun h => hsame (hdry ▸ h), ?_⟩
    intro docs hdocs
    obtain ⟨s, place, hs, hresolve, honly⟩ := hother docs hdocs
    obtain rfl : a.filename = s := Json.str.inj hs
    obtain ⟨hrelative, hplace, hprefixOf, hne⟩ := Writer.resolve_eq_ok hresolve
    have houtdir : w.outdir = a.outputDir.normalize ws.cwd := by rw [hw]
    have hasked : a.place ws.cwd = place := by
      rw [BuildArgs.place, Path.normalize_join hrelative, hplace, houtdir]
    rw [hasked, ← houtdir]
    exact ⟨hprefixOf, hne, honly⟩

/-- Making the output directory changes no file, even if it fails halfway. -/
theorem sameFiles_prepareOutput (ws : Workspace) (a : BuildArgs) :
    ws.tree.SameFiles (prepareOutput ws a).2 := by
  unfold prepareOutput
  split
  · exact .refl _
  · exact sameFiles_makeDirs _ _ _ _

/-- A build: making the output directory adds no file, and what comes after it is up to the job. -/
theorem file?_build (ws : Workspace) (a : BuildArgs) :
    (a.dryRun = true ∨ (build ws a).exit ≠ 0 → ws.tree.SameFiles (build ws a).tree) ∧
      ((build ws a).exit = 0 →
        a.outputDir.normalize ws.cwd <+: a.place ws.cwd ∧
          a.outputDir.normalize ws.cwd ≠ a.place ws.cwd ∧
          ∀ l ≠ a.place ws.cwd, (build ws a).tree.file? l = ws.tree.file? l) := by
  unfold build
  split
  · exact ⟨fun _ => .refl _, fun hexit => absurd hexit (by simp)⟩
  · exact ⟨fun _ => .refl _, fun hexit => absurd hexit (by simp)⟩
  · next found _ =>
    dsimp only
    have hmade := sameFiles_prepareOutput ws a
    split
    · next fault tree hprepare =>
      rw [hprepare] at hmade
      exact ⟨fun _ => hmade, fun hexit => absurd hexit (by simp)⟩
    · next tree hprepare =>
      rw [hprepare] at hmade
      obtain ⟨hsame, hother⟩ := file?_buildWith { ws with tree } a (found.map (·.2))
      split
      · next fault hfault =>
        refine ⟨fun _ => hmade.trans (hsame (.inr ?_)), fun hexit => absurd hexit (by simp)⟩
        intro docs hdocs
        rw [hfault] at hdocs
        cases hdocs
      · next docs hdocs =>
        refine ⟨?_, ?_⟩
        · rintro (hdry | hexit)
          · exact hmade.trans (hsame (.inl hdry))
          · exact absurd rfl hexit
        · intro _
          obtain ⟨hprefixOf, hne, honly⟩ := hother docs hdocs
          exact ⟨hprefixOf, hne, fun l hl => (honly l hl).trans (hmade l)⟩

/-- Printing what is annotated writes nothing at all. -/
theorem tree_blocks (ws : Workspace) (a : BlocksArgs) : (blocks ws a).tree = ws.tree := by
  unfold blocks
  dsimp only
  split
  · rfl
  · rfl
  · split <;> rfl

/-- **A command touches its output only.** One that fails leaves every file as it is, and so does a
dry build. A build that succeeds changes at most the file that it is asked for, which is below its
output directory. -/
theorem run_touches_output_only (ws : Workspace) (args : List String) :
    ((run ws args).2.exit ≠ 0 → ws.tree.SameFiles (run ws args).2.tree) ∧
      ∀ verbose a, parse args = some ⟨verbose, .build a⟩ →
        (a.dryRun = true → ws.tree.SameFiles (run ws args).2.tree) ∧
          ((run ws args).2.exit = 0 →
            a.outputDir.normalize ws.cwd <+: a.place ws.cwd ∧
              a.outputDir.normalize ws.cwd ≠ a.place ws.cwd ∧
              ∀ l ≠ a.place ws.cwd, (run ws args).2.tree.file? l = ws.tree.file? l) := by
  unfold run
  split
  · next hnone =>
    refine ⟨fun _ => .refl _, ?_⟩
    intro verbose a hparse
    rw [hnone] at hparse
    cases hparse
  · next i hi =>
    obtain ⟨shown, command⟩ := i
    cases command with
    | build a =>
      obtain ⟨hsame, hother⟩ := file?_build ws a
      refine ⟨fun hexit => hsame (.inr hexit), ?_⟩
      intro verbose a' hparse
      rw [hi] at hparse
      cases hparse
      exact ⟨fun hdry => hsame (.inl hdry), hother⟩
    | blocks a =>
      have htree : ws.tree.SameFiles (blocks ws a).tree := by
        rw [tree_blocks]
        exact .refl _
      refine ⟨fun _ => htree, ?_⟩
      intro verbose b hparse
      rw [hi] at hparse
      cases hparse

/-- A directory with one source, an empty script. -/
def scriptWorkspace : Workspace where
  tree := ⟨[(["work"], .dir), (["work", "a.js"], .file [])]⟩
  cwd := ["work"]
  home := ["home"]

def scriptArgs : BuildArgs where
  patterns := ["a.js"]
  nav := none
  outputDir := ⟨.here, ["dist"]⟩
  filename := "docs.json"
  noFilter := false
  dryRun := false
  workers := 1
  library := "react"

/-- A build of the script writes one file below `dist`. -/
theorem run_touches_output_only_script : parse ["build", "a.js"] = some ⟨false, .build scriptArgs⟩ ∧
    (run scriptWorkspace ["build", "a.js"]).2.exit = 0 ∧
    ∀ l ≠ ["work", "dist", "docs.json"],
      (run scriptWorkspace ["build", "a.js"]).2.tree.file? l = scriptWorkspace.tree.file? l := by
  have hparse : parse ["build", "a.js"] = some ⟨false, .build scriptArgs⟩ := rfl
  have hexit : (run scriptWorkspace ["build", "a.js"]).2.exit = 0 := by decide +kernel
  obtain ⟨-, hbuild⟩ := run_touches_output_only scriptWorkspace ["build", "a.js"]
  exact ⟨hparse, hexit, ((hbuild false scriptArgs hparse).2 hexit).2.2⟩

end CommandLine

end StyleGuide
