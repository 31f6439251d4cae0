import StyleGuide.Proofs.Comment.FreshStart
import StyleGuide.Proofs.Text.Squeezed

/-!
# Blocks are normal

A normal text has no decoration at its start and no blanks at its end. These are the texts that
`normalize` leaves as they are (`normalize_eq_self_iff`), and what it makes of any text is one of
them. A block gets its text when it is closed, and is not touched again. So all blocks of a source
have a normal text, which is not empty (`isBlockOf_of_mem_extract`).
-/

namespace StyleGuide.Comment

open Text

variable {t : Text}

/-! ### Normal texts -/

/-- The text has no decoration at its start and no blanks at its end. -/
structure IsNormal (t : Text) : Prop where
  start : ∀ c ∈ t.head?, isDecoration c = false
  stop : ∀ c ∈ t.getLast?, isBlank c = false

/-- What is left has neither decoration at its start nor blanks at its end. -/
theorem isNormal_normalize (t : Text) : IsNormal (normalize t) where
  start := by
    intro c hc
    have hhead := List.head?_dropWhile_not isDecoration t
    rw [show (t.dropWhile isDecoration).head? = some c from head?_trimEnd hc] at hhead
    simpa using hhead
  stop := not_isBlank_getLast?_trimEnd _

theorem IsNormal.normalize_eq (ht : IsNormal t) : normalize t = t := by
  rw [normalize, dropWhile_eq_self_iff.mpr ht.start]
  exact dropEndWhile_eq_self_iff.mpr ht.stop

/-- Normal texts are those that `normalize` leaves as they are. -/
theorem normalize_eq_self_iff : normalize t = t ↔ IsNormal t :=
  ⟨fun h => h ▸ isNormal_normalize t, IsNormal.normalize_eq⟩

theorem normalize_normalize (t : Text) : normalize (normalize t) = normalize t :=
  (isNormal_normalize t).normalize_eq

/-! ### Blocks -/

/-- A block as it is found in a file. -/
structure IsBlockOf (file : Json) (b : CommentBlock) : Prop where
  text_ne_nil : b.text ≠ []
  normal : IsNormal b.text
  file_eq : b.file = file

namespace Extractor

variable {x y : Extractor} {b : CommentBlock}

/-- Closing a block adds at most one, which is a block of the file. -/
theorem mem_blocks_emitAt {stop : Int} (hb : b ∈ (x.emitAt stop).blocks) :
    b ∈ x.blocks ∨ IsBlockOf x.file b := by
  rcases List.mem_append.mp hb with hb | hb
  · exact .inl hb
  · right
    split at hb
    · simp at hb
    · next htext =>
      obtain rfl := List.mem_singleton.mp hb
      exact ⟨by simpa using htext, isNormal_normalize _, rfl⟩

theorem Within.mem_blocks (h : Within x y) (hb : b ∈ y.blocks) :
    b ∈ x.blocks ∨ IsBlockOf y.file b := by
  cases h with
  | stays hy _ => exact .inl (hy.blocks ▸ hb)
  | closes hy =>
    rw [← hy.blocks]
    exact mem_blocks_emitAt hb

/-- A line may close the block before it and one of its own. -/
theorem Reads.mem_blocks (h : Reads x y) (hb : b ∈ y.blocks) :
    b ∈ x.blocks ∨ IsBlockOf x.file b ∨ IsBlockOf y.file b := by
  induction h with
  | skips _ => exact .inl hb
  | opens _ hz _ hy =>
    rcases hz.mem_blocks hb with hb | hb
    · rw [hy.blocks] at hb
      exact .inl hb
    · exact .inr (.inr hb)
  | within _ hy =>
    rcases hy.mem_blocks hb with hb | hb
    · exact .inl hb
    · exact .inr (.inr hb)
  | endsEarly _ hy =>
    rcases mem_blocks_emitAt hb with hb | hb
    · rw [hy.blocks] at hb
      exact .inl hb
    · exact .inr (.inr hb)
  | readsAgain _ _ ih =>
    rcases ih hb with hb | hb
    · exact (mem_blocks_emitAt hb).imp_right .inl
    · exact .inr hb

/-- **One step.** A call only adds blocks of the file. -/
theorem mem_blocks_call {c : Call} (hb : b ∈ (x.call c).blocks) :
    b ∈ x.blocks ∨ IsBlockOf x.file b := by
  cases c with
  | feed line =>
    rcases (feed_reads x line).mem_blocks hb with hb | hb | hb
    · exact .inl hb
    · exact .inr hb
    · -- The file is still the same after the line.
      rw [show (x.feed line).file = x.file from call_file x (.feed line)] at hb
      exact .inr hb
  | finish =>
    change b ∈ x.finish.blocks at hb
    unfold finish at hb
    split at hb
    · exact .inl hb
    · exact mem_blocks_emitAt hb

/-- **A whole run.** -/
theorem mem_blocks_calls {cs : List Call} (hb : b ∈ (x.calls cs).blocks) :
    b ∈ x.blocks ∨ IsBlockOf x.file b := by
  induction cs generalizing x with
  | nil => exact .inl hb
  | cons c cs ih =>
    rcases ih hb with hb | hb
    · exact mem_blocks_call hb
    · exact .inr (call_file x c ▸ hb)

end Extractor

/-- Extracting is feeding all lines and finishing. -/
theorem extract_eq_calls (file : Json) (text : Text) :
    extract file text =
      (({ file } : Extractor).calls ((sourceLines text).map .feed ++ [.finish])).blocks := by
  have hfeeds : ({ file } : Extractor).calls ((sourceLines text).map .feed) = scan file text :=
    List.foldl_map
  rw [Extractor.calls_append, hfeeds]
  rfl

/-- Every block that is found has a text in normal form. -/
theorem isBlockOf_of_mem_extract {file : Json} {text : Text} {b : CommentBlock}
    (hb : b ∈ extract file text) : IsBlockOf file b := by
  rw [extract_eq_calls] at hb
  rcases Extractor.mem_blocks_calls hb with hb | hb
  · simp at hb
  · exact hb

end StyleGuide.Comment
