/-
Patterns below a root.

A relative template is looked for below the root of the project, and this is
done on texts: the root is spelled so that it stands for itself, slashes at its
end are taken away, and the template is put behind a slash. So the root is a
text of letters that all stand for themselves (`Letter.literally`), and these
make up steps which lead to the root and nowhere else (`Path.goes_anchor`).

This needs a root. The empty text is the path of no directory, and what is put
behind it starts at the root of the disk.
-/
import LocaleKeys.Proofs.Config.Accepted
import LocaleKeys.Proofs.Glob.Spelling

set_option autoImplicit false

namespace LocaleKeys

/-! ## Slashes at the end

A root may be written `src`, `src/` or `src//`. The program cuts the slashes
off before it puts the template behind, and it cuts them off the spelled text,
not off the text itself. Both come to the same, since a slash is spelled as it
is and no spelling ends in one otherwise. Told by pieces, a slash at the end is
one more empty piece. -/

namespace Text

/-- Pieces without slashes that are put together with slashes are there again
when they are taken apart. -/
theorem piecesOf_intercalate {pieces : List String} (hpieces : pieces ≠ [])
    (hslash : ∀ piece ∈ pieces, '/' ∉ piece.toList) :
    piecesOf '/' ("/".intercalate pieces) = pieces := by
  rw [piecesOf, String.toList_intercalate, pieces_eq_splitOn, show "/".toList = ['/'] from rfl,
    List.splitOn_intercalate]
  · rw [List.map_map]
    simp
  · intro chars hchars
    obtain ⟨piece, hpiece, rfl⟩ := List.mem_map.mp hchars
    exact hslash piece hpiece
  · simpa using hpieces

/-- Only a separator at the end makes the last piece empty. -/
theorem eq_nil_or_of_getLast? {separator : Char} {text : List Char}
    (h : (pieces separator text).getLast? = some []) :
    text = [] ∨ text.getLast? = some separator := by
  by_cases hmem : separator ∈ text
  · -- the last piece is what is behind the last separator
    obtain ⟨back, front, hsplit, hback⟩ := List.eq_append_cons_of_mem (List.mem_reverse.mpr hmem)
    have htext : text = front.reverse ++ separator :: back.reverse := by
      rw [← List.reverse_reverse text, hsplit]
      simp
    have hlast : pieces separator back.reverse = [back.reverse] :=
      pieces_of_notMem (by simpa using hback)
    rw [htext, pieces_append, hlast, List.getLast?_concat] at h
    refine .inr ?_
    rw [htext, Option.some.inj h, List.getLast?_concat]
  · rw [pieces_of_notMem hmem] at h
    exact .inl (Option.some.inj h)

/-- Slashes at the end are empty pieces at the end. -/
theorem pieces_append_replicate (text : List Char) (n : Nat) :
    pieces '/' (text ++ List.replicate n '/') = pieces '/' text ++ List.replicate n [] := by
  induction n with
  | zero => simp
  | succ n ih =>
    rw [List.replicate_succ', ← List.append_assoc, pieces_append, ih, List.append_assoc,
      List.replicate_succ']
    rfl

end Text

namespace expandTemplate

/-- Slashes behind a text that ends in none are cut off, all of them and
nothing else. -/
theorem withoutSlashes_append {front : List Char} (h : front.getLast? ≠ some '/') (n : Nat) :
    withoutSlashes (String.ofList (front ++ List.replicate n '/')) = String.ofList front := by
  have hdrop : (front ++ List.replicate n '/').reverse.dropWhile (· == '/') = front.reverse := by
    rw [List.reverse_append, List.reverse_replicate]
    induction n with
    | zero =>
      rw [List.replicate_zero, List.nil_append]
      cases hlist : front.reverse with
      | nil => rfl
      | cons c r =>
        refine List.dropWhile_cons_of_neg fun hc => h ?_
        rw [← List.head?_reverse, hlist, List.head?_cons, eq_of_beq hc]
    | succ n ih =>
      rw [List.replicate_succ, List.cons_append, List.dropWhile_cons_of_pos rfl]
      exact ih
  rw [withoutSlashes, String.toList_ofList, hdrop, List.reverse_reverse]

/-- **A text has some slashes at its end**, and those are left out. None is
left, so that the cut is in front of the first of them. -/
theorem exists_withoutSlashes (text : String) :
    ∃ n, text.toList = (withoutSlashes text).toList ++ List.replicate n '/' ∧
      (withoutSlashes text).toList.getLast? ≠ some '/' := by
  refine ⟨(text.toList.reverse.takeWhile (· == '/')).length, ?_, ?_⟩
  · have hslashes : text.toList.reverse.takeWhile (· == '/')
        = List.replicate (text.toList.reverse.takeWhile (· == '/')).length '/' :=
      List.eq_replicate_of_mem fun c hc => eq_of_beq (List.all_eq_true.mp List.all_takeWhile c hc)
    rw [withoutSlashes, String.toList_ofList]
    -- the slashes are what is taken from the end while there are slashes
    calc text.toList
        = (text.toList.reverse.takeWhile (· == '/') ++
            text.toList.reverse.dropWhile (· == '/')).reverse := by
          rw [List.takeWhile_append_dropWhile, List.reverse_reverse]
      _ = _ := by
          rw [List.reverse_append]
          congr 1
          conv => lhs; rw [hslashes, List.reverse_replicate]
  · rw [withoutSlashes, String.toList_ofList, List.getLast?_reverse]
    have hhead := List.head?_dropWhile_not (· == '/') text.toList.reverse
    intro hslash
    rw [hslash] at hhead
    exact absurd hhead (by simp)

/-- Spelling leaves the slashes at the end. -/
theorem withoutSlashes_escape (text : String) :
    withoutSlashes (Glob.escape text) = Glob.escape (withoutSlashes text) := by
  obtain ⟨n, htext, hlast⟩ := exists_withoutSlashes text
  have hslashes : (List.replicate n '/').flatMap Glob.spelled = List.replicate n '/' := by
    clear htext
    induction n with
    | zero => rfl
    | succ n ih =>
      rw [List.replicate_succ, List.flatMap_cons, ih]
      rfl
  have hspelled : text.toList.flatMap Glob.spelled
      = (withoutSlashes text).toList.flatMap Glob.spelled ++ List.replicate n '/' := by
    conv => lhs; rw [htext, List.flatMap_append, hslashes]
  rw [Glob.escape_eq, hspelled, Glob.escape_eq]
  refine withoutSlashes_append ?_ n
  -- the last character kept is no slash, and neither is its spelling nor the
  -- bracket that closes it
  rcases List.eq_nil_or_concat (withoutSlashes text).toList with hnil | ⟨front, c, hfront⟩
  · rw [hnil]
    simp
  · rw [hfront, List.concat_eq_append] at hlast ⊢
    rw [List.getLast?_concat] at hlast
    rw [List.flatMap_append, List.flatMap_singleton, Glob.spelled]
    split
    · simp
    · rwa [List.getLast?_concat]

end expandTemplate

namespace Letter

open Glob

/-! ## Texts that stand for themselves

The letters of a root all stand for themselves. They form a single run, so a
step of them fits its own text and nothing else, is never two stars, and asks
for no brackets. Each property of letters is told here for this case, and
together they say that such steps lead on by exactly their pieces
(`standFor_literally_append`). -/

/-- The letters of a text that stands for itself. -/
def literally (text : List Char) : List Letter := text.map (⟨·, true⟩)

/-- They are the letters of the text. -/
theorem text_literally (chars : List Char) : text (literally chars) = chars := by
  rw [text, literally, List.map_map]
  exact List.map_id _

/-- Each is spelled to stand for itself. -/
theorem pattern_literally (chars : List Char) : pattern (literally chars) = chars.flatMap Glob.spelled := by
  rw [pattern, literally, List.flatMap_map]
  rfl

/-- None is a letter of the template. -/
theorem literal_of_mem {chars : List Char} : ∀ x ∈ literally chars, x.literal = true := by
  intro x hx
  obtain ⟨c, -, rfl⟩ := List.mem_map.mp hx
  rfl

/-- They fit their own text and nothing else. -/
theorem fits_literally (chars : List Char) (name : String) :
    Fits (literally chars) name ↔ name.toList = chars := by
  rw [Fits]
  by_cases hnil : literally chars = []
  · rw [hnil, List.map_eq_nil_iff.mp hnil]
    exact Iff.rfl
  · obtain ⟨literal, run, rest, hsplit, hne, hrun, hrest, hruns⟩ := runs_cases hnil
    have hall : ∀ x ∈ run ++ rest, x.literal = true := hsplit ▸ literal_of_mem
    obtain ⟨x, hx⟩ := List.exists_mem_of_ne_nil run hne
    have hliteral : literal = true := by rw [← hrun x hx, hall x (List.mem_append_left rest hx)]
    -- all letters are of one kind, so that nothing is behind the first run
    have hnone : rest = [] := by
      cases rest with
      | nil => rfl
      | cons y rest =>
        have hy := hrest y rfl
        rw [hliteral, hall y (List.mem_append_right run List.mem_cons_self)] at hy
        exact absurd hy (by simp)
    have hself : RunFits run name.toList ↔ name.toList = chars := by
      rw [RunFits, if_pos (List.all_eq_true.mpr fun x hx => hall x (List.mem_append_left rest hx)),
        ← text_literally chars, hsplit, hnone, List.append_nil]
    rw [hruns, hnone, RunsFit, ← hself]
    constructor
    · rintro ⟨front, back, hname, hfront, hback⟩
      rw [hname, show back = [] from hback, List.append_nil]
      exact hfront
    · intro h
      exact ⟨name.toList, [], (List.append_nil _).symm, h, rfl⟩

/-- So a step of them stands for one piece, be it a name or not. -/
theorem standsFor_literally (chars : List Char) (piece : String) :
    StandsFor (literally chars) piece ↔ piece.toList = chars := by
  rw [StandsFor, fits_literally, text_literally]
  exact and_iff_left_of_imp fun heq => .inr (by rw [heq])

/-- Stars in a root are no wildcards. -/
theorem not_isAnyDepth_literally (chars : List Char) : ¬ IsAnyDepth (literally chars) := by
  intro hstars
  have hstar : (⟨'*', false⟩ : Letter) ∈ literally chars := by
    rw [show literally chars = _ from hstars]
    exact List.mem_cons_self
  exact absurd (literal_of_mem _ hstar) (by simp)

/-- No letter of the template is among them, so that nothing stands between
brackets. -/
theorem regular_literally {chars : List Char} (h : '/' ∉ chars) : Regular (literally chars) where
  slash := by
    intro x hx hslash
    obtain ⟨c, hc, rfl⟩ := List.mem_map.mp hx
    exact h (hslash ▸ hc)
  separable := by
    intro run hrun hown
    have hall : run.all (·.literal) = true := by
      refine List.all_eq_true.mpr fun x hx => ?_
      have hmem : x ∈ literally chars := by
        rw [← List.flatten_splitBy (fun x y => x.literal == y.literal) (literally chars)]
        exact List.mem_flatten.mpr ⟨run, hrun, hx⟩
      exact literal_of_mem x hmem
    rw [hall] at hown
    exact absurd hown (by simp)

/-- What stands for itself is none of the patterns that stand for two dots. -/
theorem dots_of_literally {chars : List Char} (h : '/' ∉ chars) {ts tokens : List Token}
    (hts : tokensFrom 0 0 none (pattern (literally chars)) = .ok ts) {name : String}
    (heq : Segment.ofTokens name ts = .names tokens) : ".." ∉ dots tokens := by
  have hdepth : .anyDepth ∉ ts := by
    rw [anyDepth_mem_iff (regular_literally h).slash hts]
    exact not_isAnyDepth_literally chars
  have hplain : ¬ ArePlain ts := by
    intro hplain
    rw [ofTokens_of_plain hplain] at heq
    exact absurd heq (by simp)
  rw [ofTokens_of_not_plain hdepth hplain] at heq
  obtain rfl := Segment.names.inj heq
  intro hdots
  -- the text would be the two dots themselves, which are searched for as they
  -- are
  have hfits : Fits (literally chars) ".." :=
    (admits_iff_runsFit (regular_literally h).separable hts hdepth _).mp (mem_dots.mp hdots).2.2
  rw [← (fits_literally chars "..").mp hfits] at hts
  have hself : tokensFrom 0 0 none (pattern (literally "..".toList)) = .ok [.char '.', .char '.'] := rfl
  rw [← Except.ok.inj (hself.symm.trans hts)] at hplain
  exact hplain (by simp [ArePlain])

/-- **What stands for itself leads on by itself.** The pieces of a root are
such steps, and this is how they are taken off again from what the whole
pattern stands for. -/
theorem standFor_literally_append (pieces : List String) (steps : List (List Letter))
    (way : List String) :
    StandFor (pieces.map (fun piece => literally piece.toList) ++ steps) way ↔
      ∃ more, way = pieces ++ more ∧ StandFor steps more := by
  induction pieces generalizing way with
  | nil => simp
  | cons piece pieces ih =>
    rw [List.map_cons, List.cons_append, StandFor, if_neg (not_isAnyDepth_literally _)]
    simp only [ih, standsFor_literally, String.toList_inj]
    constructor
    · rintro ⟨-, -, rfl, rfl, more, rfl, h⟩
      exact ⟨more, rfl, h⟩
    · rintro ⟨more, rfl, h⟩
      exact ⟨piece, pieces ++ more, rfl, rfl, more, rfl, h⟩

/-- Their steps are the pieces of the text. -/
theorem steps_literally (chars : List Char) :
    steps (literally chars) = (Text.pieces '/' chars).map literally := by
  induction chars with
  | nil => rfl
  | cons c r ih =>
    rw [literally, List.map_cons, ← literally, steps, List.splitOnP_cons_eq_if_modifyHead, ← steps, ih,
      Text.pieces]
    split
    · rfl
    · cases hpieces : Text.pieces '/' r with
      | nil => exact absurd hpieces (Text.pieces_ne_nil '/' r)
      | cons p ps => rfl

end Letter

/-! ## The root

The search does not start at the root but at `/` or at `.`, with the pieces of
the root as first steps. It has to be seen that this leads to the root. The
pieces that a root has beyond those that are searched for are idle: the empty
one in front of an absolute path, and those that slashes at the end make. An
idle piece asks that there is a directory which can be gone on from, and so it
may be left out wherever another piece follows (`locate_start`); that is why
`way` must not be empty. -/

namespace Path

open expandTemplate

/-- The pieces of a root: none for a slash in front, and none for those at the
end. -/
def anchor (root : Path) : List String :=
  if root.isAbsolute then (Path.mk (withoutSlashes root.text)).pieces.drop 1
  else (Path.mk (withoutSlashes root.text)).pieces

/-- Where a search starts that is for something below the root. -/
def start (root : Path) : Path := ⟨if root.isAbsolute then "/" else "."⟩

/-- There is no slash in a piece of a path. -/
theorem slash_notMem_of_mem_pieces {p : Path} : ∀ piece ∈ p.pieces, '/' ∉ piece.toList := by
  intro piece hpiece
  obtain ⟨chars, hchars, rfl⟩ := List.mem_map.mp hpiece
  rw [String.toList_ofList]
  exact Text.notMem_of_mem_pieces hchars

/-- Nor in a piece of the root. -/
theorem slash_notMem_of_mem_anchor {root : Path} : ∀ piece ∈ root.anchor, '/' ∉ piece.toList := by
  intro piece hpiece
  rw [anchor] at hpiece
  split at hpiece
  · exact slash_notMem_of_mem_pieces piece (List.mem_of_mem_drop hpiece)
  · exact slash_notMem_of_mem_pieces piece hpiece

/-- Pieces that are idle make no steps. -/
theorem stepsOf_of_idle {pieces : List String} (h : ∀ x ∈ pieces, isIdle x = true) :
    stepsOf pieces = [] := by
  rw [stepsOf, List.map_eq_nil_iff, List.filter_eq_nil_iff]
  intro x hx
  simp [h x hx]

/-- Slashes at the end of a root make empty pieces. -/
theorem exists_pieces_root (root : Path) : ∃ n, root.pieces
    = (Path.mk (withoutSlashes root.text)).pieces ++ List.replicate n "" := by
  obtain ⟨n, htext, -⟩ := exists_withoutSlashes root.text
  refine ⟨n, ?_⟩
  rw [pieces, Text.piecesOf, htext, Text.pieces_append_replicate, List.map_append, List.map_replicate]
  rfl

/-- Nothing else is left out of the pieces of a root but the one in front. -/
theorem exists_anchor (root : Path) : ∃ n,
    (if root.isAbsolute then root.pieces.drop 1 else root.pieces)
      = root.anchor ++ List.replicate n "" := by
  obtain ⟨n, hpieces⟩ := exists_pieces_root root
  refine ⟨n, ?_⟩
  rw [hpieces, anchor]
  by_cases habsolute : root.isAbsolute = true
  · rw [if_pos habsolute, if_pos habsolute, List.drop_append_of_le_length]
    exact List.length_pos_of_ne_nil (pieces_ne_nil _)
  · rw [if_neg habsolute, if_neg habsolute]

/-- A search starts at a path that is not empty. -/
theorem text_start_ne (root : Path) : root.start.text ≠ "" := by
  rw [start]
  split <;> simp

/-- And no dot is left in front of it but the one that it is. -/
theorem isClear_start (root : Path) : root.start.IsClear := by
  rw [start]
  split <;> decide +kernel

section

variable {root : Path} (hroot : root.text ≠ "")
include hroot

/-- The pieces of a root that is not absolute begin with a step. -/
theorem head?_anchor_append_ne (hrelative : root.isAbsolute = false) (way : List String) :
    (root.anchor ++ way).head? ≠ some "" := by
  have hanchor : root.anchor = (Path.mk (withoutSlashes root.text)).pieces := by
    rw [anchor, hrelative]
    rfl
  obtain ⟨n, hpieces⟩ := exists_pieces_root root
  obtain ⟨first, rest, hfirst⟩ :=
    List.exists_cons_of_ne_nil (Path.mk (withoutSlashes root.text)).pieces_ne_nil
  intro hempty
  rw [hanchor, hfirst] at hempty
  have habsolute : root.isAbsolute = true := by
    rw [isAbsolute_iff_head hroot, hpieces, hfirst]
    exact hempty
  rw [hrelative] at habsolute
  exact absurd habsolute (by simp)

/-- The pieces of the root lead along the steps of the root. -/
theorem course_start : root.start.course ++ stepsOf root.anchor = root.course := by
  obtain ⟨n, hpieces⟩ := exists_anchor root
  have hanchor : stepsOf (root.anchor ++ List.replicate n "") = stepsOf root.anchor := by
    have hnone : stepsOf (List.replicate n "") = [] :=
      stepsOf_of_idle fun x hx => by rw [List.eq_of_mem_replicate hx]; rfl
    rw [stepsOf_append, hnone, List.append_nil]
  rw [course_eq hroot, way, start]
  by_cases habsolute : root.isAbsolute = true
  · obtain ⟨rest, hrest⟩ := List.head?_eq_some_iff.mp ((isAbsolute_iff_head hroot).mp habsolute)
    rw [if_pos habsolute, hrest, List.drop_one, List.tail_cons] at hpieces
    have hslash : (Path.mk "/").course = [.root] := by decide +kernel
    rw [if_pos habsolute, if_pos habsolute, hslash, hrest, hpieces, ← hanchor]
    rfl
  · rw [if_neg habsolute] at hpieces
    have hdot : (Path.mk ".").course = [] := by decide +kernel
    rw [if_neg habsolute, if_neg habsolute, hdot, hpieces, hanchor]

/-- What is put behind the pieces of the root is looked for where the root
leads. -/
theorem locate_start (d : Disk) {way : List String} (hway : way ≠ []) :
    (d.locate root.start).bind (·.follow (root.anchor ++ way))
      = (d.locate root).bind (·.follow way) := by
  obtain ⟨n, hpieces⟩ := exists_anchor root
  have hidle : ∀ x ∈ List.replicate n "", isIdle x = true := fun x hx => by
    rw [List.eq_of_mem_replicate hx]
    rfl
  -- both paths begin at the root of the disk, or where the program runs
  let front := if root.isAbsolute then [] else d.working
  have hroute : d.route root = front ++ (root.anchor ++ List.replicate n "") := by
    rw [Disk.route, ← hpieces]
    simp only [front]
    split <;> rfl
  have hroute' : ∃ idle, isIdle idle = true ∧ d.route root.start = front ++ [idle] := by
    rw [start]
    simp only [front]
    split
    · exact ⟨"", rfl, by rw [Disk.route, if_pos (by decide)]; rfl⟩
    · exact ⟨".", rfl, by rw [Disk.route, if_neg (by decide)]; rfl⟩
  obtain ⟨idle, hidle', hroute'⟩ := hroute'
  rw [Disk.locate_eq, if_neg (by simpa using root.text_start_ne), Disk.locate_eq, if_neg (by simpa using hroot),
    hroute, hroute', Disk.Location.follow_append, Disk.Location.follow_append]
  cases (Disk.Location.mk d.root []).follow front with
  | error fault => rfl
  | ok l =>
    show (l.follow [idle]).bind (·.follow (root.anchor ++ way))
      = (l.follow (root.anchor ++ List.replicate n "")).bind (·.follow way)
    rw [← Disk.Location.follow_append, ← Disk.Location.follow_append, List.append_assoc,
      Disk.Location.follow_idle (by simpa using hidle') (by simp [hway]), Disk.Location.follow_append,
      Disk.Location.follow_append]
    congr 1
    funext l'
    exact (Disk.Location.follow_idle hidle hway l').symm

/-- **The pieces of the root lead to it**, from where a search starts. A search
starts at the root of the disk or where the program runs, and the pieces make
up for the difference. -/
theorem goes_anchor {d : Disk} {way : List String} (hway : way ≠ []) {q : Path} :
    Glob.Goes d root.start (root.anchor ++ way) q ↔ Glob.Goes d root way q := by
  have hcourse : root.start.course ++ stepsOf (root.anchor ++ way) = root.course ++ stepsOf way := by
    rw [stepsOf_append, ← List.append_assoc, course_start hroot]
  constructor
  · exact fun h => ⟨h.text_ne, h.course.trans hcourse, h.locate.trans (locate_start hroot d hway)⟩
  · exact fun h => ⟨h.text_ne, h.course.trans hcourse.symm,
      h.locate.trans (locate_start hroot d hway).symm⟩

end

end Path

/-! ## Patterns below the root

The pattern that is searched for, as letters: those of the root, a slash, and
those of the template. Its pieces are the pieces of the root and the steps of
the template. The one case to be told apart is a template that ends in a slash.
Its last step is empty, and then the program keeps directories only, among
which there is no file. -/

namespace Letter

open Glob expandTemplate

/-- The letters of a pattern below a root. -/
def anchored (root : Path) (letters : List Letter) : List Letter :=
  literally (withoutSlashes root.text).toList ++ ⟨'/', false⟩ :: letters

/-- Spelled, this is the text that the program puts together. -/
theorem pattern_anchored (root : Path) (letters : List Letter) :
    String.ofList (pattern (anchored root letters))
      = withoutSlashes (Glob.escape root.text) ++ "/" ++ String.ofList (pattern letters) := by
  rw [withoutSlashes_escape, Glob.escape_eq, anchored, pattern_append, pattern_literally, ← String.toList_inj]
  simp [pattern, spelled]

/-- Its steps are the pieces of the root and those of the template. -/
theorem steps_anchored (root : Path) (letters : List Letter) :
    steps (anchored root letters)
      = (Path.mk (withoutSlashes root.text)).pieces.map (fun piece => literally piece.toList)
        ++ steps letters := by
  have hpieces : steps (literally (withoutSlashes root.text).toList)
      = (Path.mk (withoutSlashes root.text)).pieces.map (fun piece => literally piece.toList) := by
    rw [steps_literally, Path.pieces, Text.piecesOf, List.map_map]
    simp
  rw [anchored, steps, List.splitOnP_append_cons _ _ (by rfl), ← steps, ← steps, hpieces]

/-- What is spelled begins with a slash only if it is one. -/
theorem slash_of_head?_pattern {letters : List Letter} (h : (pattern letters).head? = some '/') :
    ∃ x ∈ letters.head?, x.char = '/' := by
  cases letters with
  | nil => exact absurd h (by simp [pattern])
  | cons x letters =>
    refine ⟨x, rfl, ?_⟩
    rw [pattern, List.flatMap_cons, spelled, Glob.spelled] at h
    split at h
    · split at h
      · exact absurd h (by simp)
      · exact Option.some.inj h
    · exact Option.some.inj h

/-- Below a root a template that is relative is spelled behind it. -/
theorem expandTemplate_eq {template locale : String} (hplaceholder : hasPlaceholder template = true)
    (hrelative : ∀ x ∈ (ofTemplate template locale).head?, x.char ≠ '/') (root : Path) :
    expandTemplate template locale root
      = .ok (String.ofList (pattern (anchored root (ofTemplate template locale)))) := by
  have habsolute : ¬ (Path.mk (String.ofList (pattern (ofTemplate template locale)))).isAbsolute = true := by
    intro hhead
    rw [Path.isAbsolute, String.toList_ofList, beq_iff_eq] at hhead
    obtain ⟨x, hx, hslash⟩ := slash_of_head?_pattern hhead
    exact hrelative x hx hslash
  rw [expandTemplate, hplaceholder, replaced_eq]
  simp only [Bool.not_true, Bool.false_eq_true, if_false, if_neg habsolute]
  rw [pattern_anchored]

/-- The pieces of a pattern are its steps, spelled. -/
theorem pieces_pattern_path (letters : List Letter) :
    (Path.mk (String.ofList (pattern letters))).pieces
      = (steps letters).map fun step => String.ofList (pattern step) := by
  rw [Path.pieces, Text.piecesOf, String.toList_ofList, pieces_pattern, List.map_map]
  rfl

section

variable {root : Path} (hroot : root.text ≠ "") {letters : List Letter}
include hroot

/-- The pattern is absolute if the root is. -/
theorem isAbsolute_anchored :
    (Path.mk (String.ofList (pattern (anchored root letters)))).isAbsolute = root.isAbsolute := by
  have htext : (Path.mk (String.ofList (pattern (anchored root letters)))).text ≠ "" := by
    rw [pattern_anchored]
    simp
  obtain ⟨n, hpieces⟩ := Path.exists_pieces_root root
  obtain ⟨first, rest, hkept⟩ :=
    List.exists_cons_of_ne_nil (Path.mk (withoutSlashes root.text)).pieces_ne_nil
  have hempty : String.ofList (pattern (literally first.toList)) = "" ↔ first = "" := by
    rw [String.ofList_eq_empty_iff, pattern_eq_nil_iff, literally, List.map_eq_nil_iff,
      String.toList_eq_nil_iff]
  rw [Bool.eq_iff_iff, Path.isAbsolute_iff_head htext, Path.isAbsolute_iff_head hroot,
    pieces_pattern_path, steps_anchored, hpieces, hkept, List.map_cons, List.cons_append, List.map_cons,
    List.head?_cons, List.cons_append, List.head?_cons, Option.some_inj, Option.some_inj, hempty]

/-- **A pattern below a root is searched for by the pieces of the root** and
its own steps. The slash that an absolute root begins with makes an empty
piece, which the search leaves out. -/
theorem piecesOf_anchored (hlast : (steps letters).getLast? ≠ some []) :
    Glob.piecesOf (String.ofList (pattern (anchored root letters)))
      = (root.anchor.map (fun piece => literally piece.toList) ++ steps letters).map
          fun step => String.ofList (pattern step) := by
  have hpieces : Text.piecesOf '/' (String.ofList (pattern (anchored root letters)))
      = (steps (anchored root letters)).map fun step => String.ofList (pattern step) :=
    pieces_pattern_path _
  have hinner : (if root.isAbsolute then
        (Text.piecesOf '/' (String.ofList (pattern (anchored root letters)))).drop 1
      else Text.piecesOf '/' (String.ofList (pattern (anchored root letters))))
      = (root.anchor.map (fun piece => literally piece.toList) ++ steps letters).map
          fun step => String.ofList (pattern step) := by
    rw [hpieces, steps_anchored, Path.anchor]
    have hpositive : 0 < (Path.mk (withoutSlashes root.text)).pieces.length :=
      List.length_pos_of_ne_nil (Path.pieces_ne_nil _)
    by_cases habsolute : root.isAbsolute = true
    · rw [if_pos habsolute, if_pos habsolute, ← List.map_drop, List.drop_append_of_le_length,
        List.map_drop]
      rw [List.length_map]
      omega
    · rw [if_neg habsolute, if_neg habsolute]
  -- the last piece is not empty, so that none is dropped at the end
  rw [Glob.piecesOf]
  simp only [isAbsolute_anchored hroot, hinner]
  rw [if_neg]
  intro hend
  obtain ⟨front, last, hsteps⟩ :=
    (List.eq_nil_or_concat (steps letters)).resolve_left (List.splitOnP_ne_nil _ _)
  rw [List.concat_eq_append] at hsteps
  rw [Bool.and_eq_true, beq_iff_eq, hsteps, ← List.append_assoc, List.map_append, List.map_singleton,
    List.getLast?_concat, Option.some_inj, String.ofList_eq_empty_iff, pattern_eq_nil_iff] at hend
  exact hlast (by rw [hsteps, List.getLast?_concat, hend.2])

end

/-- The pattern ends in a slash if and only if its last step is none. -/
theorem getLast?_anchored_iff {root : Path} {letters : List Letter} :
    (pattern (anchored root letters)).getLast? = some '/' ↔ (steps letters).getLast? = some [] := by
  have hlast : (Text.pieces '/' (pattern (anchored root letters))).getLast? = some []
      ↔ (steps letters).getLast? = some [] := by
    obtain ⟨front, last, hsteps⟩ :=
      (List.eq_nil_or_concat (steps letters)).resolve_left (List.splitOnP_ne_nil _ _)
    rw [List.concat_eq_append] at hsteps
    rw [pieces_pattern, steps_anchored, hsteps, ← List.append_assoc, List.map_append, List.map_singleton,
      List.getLast?_concat, List.getLast?_concat, Option.some_inj, Option.some_inj, pattern_eq_nil_iff]
  rw [← hlast]
  constructor
  · intro hslash
    obtain ⟨front, hfront⟩ := List.getLast?_eq_some_iff.mp hslash
    rw [hfront, Text.pieces_append, show Text.pieces '/' [] = [[]] from rfl, List.getLast?_concat]
  · intro hempty
    refine (Text.eq_nil_or_of_getLast? hempty).resolve_left fun hnil => ?_
    rw [pattern_eq_nil_iff, anchored] at hnil
    exact absurd hnil (by simp)

section

variable {root : Path} {letters : List Letter} {d : Disk} {found : List Path}
  (h : Glob.find d (String.ofList (pattern (anchored root letters))) = .ok found)
include h

/-- **What is found below a root**, where the last step of the pattern is one.
The steps of the root are literal, so that they are merged with what comes
first in the template when the search begins. -/
theorem find_anchored (hroot : root.text ≠ "") (hlast : (steps letters).getLast? ≠ some []) :
    ∃ segments, Reads (root.anchor.map (fun piece => literally piece.toList) ++ steps letters) segments ∧
      found = search d (merged segments) root.start := by
  obtain ⟨steps', hsegments, hfound⟩ := bind_eq_ok_iff.mp h
  obtain ⟨ts, -, hsteps⟩ := bind_eq_ok_iff.mp hsegments
  obtain ⟨segments, hread, hmerged⟩ := bind_eq_ok_iff.mp hsteps
  obtain rfl := Except.ok.inj hmerged
  rw [piecesOf_anchored hroot hlast] at hread
  refine ⟨segments, hread, ?_⟩
  have hslash : ¬ ((pattern (anchored root letters)).getLast? == some '/') = true :=
    fun hend => hlast (getLast?_anchored_iff.mp (eq_of_beq hend))
  dsimp only at hfound
  rw [String.toList_ofList, isAbsolute_anchored hroot, if_neg hslash] at hfound
  exact (Except.ok.inj hfound).symm

/-- A pattern that ends in a slash finds directories only. -/
theorem isDirectory_of_find (hlast : (steps letters).getLast? = some []) :
    ∀ p ∈ found, d.isDirectory p = true := by
  obtain ⟨segments, -, hfound⟩ := bind_eq_ok_iff.mp h
  have hslash : ((pattern (anchored root letters)).getLast? == some '/') = true :=
    beq_iff_eq.mpr (getLast?_anchored_iff.mpr hlast)
  dsimp only at hfound
  rw [String.toList_ofList, if_pos hslash] at hfound
  rw [← Except.ok.inj hfound]
  exact fun p hp => (List.mem_filter.mp hp).2

end

end Letter

end LocaleKeys
