/-
What is shown where a cursor stands.

A result is shown if the cursor stands in its literal, both ends included. The
literals of two uses do not even touch, since each is the first argument of a
call of its own: the parenthesis of the call that is written later stands
between them (`apart_of_uses`). So at most one result is shown anywhere, in
whatever order they come.

The literal of a use begins at its quote and ends behind the quote that closes
it, with one exception: behind a comment of the old forms it begins where the
comment does (`KeyUse.Spelled`). Then the result is also shown in the comment
(`hovered_in_comment`).

What is shown for a use is what the report has at its place, and a report has
one entry there (`FileReport.reads_of_mem`).
-/
import LocaleKeys.Proofs.Analysis.Comparing
import LocaleKeys.Proofs.Outline.Leads
import LocaleKeys.Proofs.Text.Spans

set_option autoImplicit false

namespace LocaleKeys

open LocaleKeys.Script
open LocaleKeys.Text (Document Position Stands)
open List (Subperm)

/-! ## Uses and leads

The text of a use is not only some literal: it is the lead of its call, the
first thing behind the opening parenthesis. This matters because two literals
may touch in a source, and a cursor between them would be in both. Leads cannot
touch, as there is a parenthesis in front of each. So the uses are mapped to
leads, injectively, by way of their calls. -/

namespace Outline

variable {settings : Settings} {d : Document} {s : Shape}

/-- A use is at the text that begins the arguments of its call. -/
theorem exists_lead_of_use {c : Nat} {use : KeyUse} (h : (ofShape d s).useAt? settings c = some use) :
    ∃ x ∈ spots s, x.number = c ∧ ∃ e, x.shape.lead? = some e ∧ use.IsAt d e := by
  obtain ⟨callee, argument, rest, name, node, hkind, -, hsuffix, hnode, hspan, hposition, -⟩ :=
    useAt?_eq_some_iff.mp h
  obtain ⟨caller, hcaller, hlabel⟩ := Option.map_eq_some_iff.mp hkind
  obtain ⟨x, hx, rfl, rfl⟩ := getElem?_nodes_iff.mp hcaller
  refine ⟨x, hx, rfl, ?_⟩
  have hparts := forall₂_parts hx
  rw [Spot.node] at hlabel
  obtain ⟨i, ⟨label, e, parts⟩, around⟩ := x
  dsimp only [Shape.label, Shape.parts] at hlabel hparts
  cases label with
  | call =>
    obtain ⟨-, hnumbers⟩ := Kind.call.inj hlabel
    cases parts with
    | nil => exact absurd hnumbers (by simp [numbersFrom])
    | cons p parts =>
      cases parts with
      | nil => exact absurd hnumbers (by simp [numbersFrom])
      | cons a parts =>
        -- the second part of the call is the argument
        rw [numbersFrom, numbersFrom, List.drop_succ_cons, List.drop_zero] at hnumbers
        obtain ⟨rfl, -⟩ := List.cons.inj hnumbers
        rw [numbersFrom, numbersFrom, List.forall₂_cons, List.forall₂_cons] at hparts
        have ha := hparts.2.1
        rw [kind?_number ha, Option.some.injEq, kind_eq_text_iff] at hsuffix
        rw [nodes_number ha, Option.some.injEq] at hnode
        subst hnode
        have hlead : Label.call.lead? (p :: a :: parts) = some a.extent := by
          rw [Label.lead?, show a.label = _ from hsuffix]
          rfl
        exact ⟨a.extent, hlead, hspan, hposition⟩
  | _ => exact absurd hlabel (by simp [Label.kind])

/-- **Key uses are at leaders of the source, and no two of them are at the
same.** A use is found at a call, and its text is what leads the arguments of
that call. -/
theorem exists_leaders_of_uses (d : Document) (t : Tree) (settings : Settings) :
    ∃ es : List Extent, Subperm es (leaders t.stretches) ∧
      List.Forall₂ (KeyUse.IsAt d) ((ofModule d t).keyUses settings ((ofModule d t).bindings settings)) es := by
  have hspot : ∀ x ∈ (ofModule d t).foundUses settings, ∃ y ∈ spots (moduleShape t), y.number = x.1 ∧
      ∃ e, y.shape.lead? = some e ∧ x.2.IsAt d e :=
    fun x hx => exists_lead_of_use (mem_foundUses.mp hx)
  choose! spotOf hmem hnumber leadOf hlead hisAt using hspot
  refine ⟨((ofModule d t).foundUses settings).map leadOf, ?_, ?_⟩
  · -- different uses have different calls
    have hnodup : (((ofModule d t).foundUses settings).map spotOf).Nodup := by
      have hcalls : (((ofModule d t).foundUses settings).map spotOf).map Spot.number
          = ((ofModule d t).foundUses settings).map Prod.fst := by
        rw [List.map_map]
        exact List.map_congr_left hnumber
      apply List.Nodup.of_map Spot.number
      rw [hcalls]
      exact nodup_foundUses _ _
    have hsub : ((ofModule d t).foundUses settings).map spotOf ⊆ spots (moduleShape t) := by
      intro y hy
      obtain ⟨x, hx, rfl⟩ := List.mem_map.mp hy
      exact hmem x hx
    have hleads : (((ofModule d t).foundUses settings).map spotOf).filterMap (·.shape.lead?)
        = ((ofModule d t).foundUses settings).map leadOf := by
      rw [List.filterMap_map, ← List.filterMap_eq_map]
      exact List.filterMap_congr hlead
    obtain ⟨ys, hperm, hys⟩ := List.subperm_of_subset hnodup hsub
    have hshapes := leads_shapes.1 t
    -- the module adds no lead of its own, so that the leads of its statements
    -- are those of the spots below it
    rw [← @leads_node (.scope .module []) (by simp) t.extent, ← moduleShape, collects_leads.eq_filterMap_spotsFrom [] 0]
      at hshapes
    rw [← hleads]
    exact ((hperm.filterMap _).symm.subperm.trans (hys.filterMap _).subperm).trans hshapes
  · rw [← map_snd_foundUses, List.forall₂_map_left_iff, List.forall₂_map_right_iff, List.forall₂_same]
    exact hisAt

end Outline

/-! ## Where uses are

`Spelled` describes the literal of a use by the text: the quote that opens it,
how it is closed, and where the extent that the parser gives begins. Usually
that is the quote. The parser takes a literal behind an old comment sign to
begin at the sign, so `begins` has two cases, and `covers_iff` says that the
second one is visible. -/

/-- The use is at the literal that the quote `q` opens at the place `b`. The
literal ends right behind the quote that closes it, or with its line if none
does. It begins with its quote, or at an old sign if the gap behind the sign
ends at the quote. -/
structure KeyUse.Spelled (d : Document) (use : KeyUse) (e : Extent) (q : Char) (b : Nat) : Prop where
  isAt : use.IsAt d e
  isQuote : isQuote q = true
  opened : ∃ r, Stands d.characters b (q :: r) ∧ literalEnd? q b r = some e.hi
  closed : ClosedBy d.characters q (b + 1) e.hi ∨
    q.toNat ≠ 0x60 ∧ ∃ rest, Stands d.characters e.hi rest ∧ AtLineEnd rest
  begins : e.lo = b ∨ e.lo < b ∧ OldGap d.characters e.lo b

/-- The place lies in the stretch, both ends included. -/
def Covers (d : Document) (e : Extent) (p : Position) : Prop :=
  (d.place e.lo).position.upTo p = true ∧ p.upTo (d.place e.hi).position = true

/-- The span of a use has the places that its literal covers. -/
theorem KeyUse.IsAt.contains_iff {d : Document} {use : KeyUse} {e : Extent} (h : use.IsAt d e) (p : Position) :
    use.span.contains p = true ↔ Covers d e p := by
  rw [h.1, Text.Span.contains, Bool.and_eq_true]
  rfl

/-- A literal that is delimited as the parser says is spelled in this way. -/
theorem exists_spelled {d : Document} {use : KeyUse} {e : Extent} (h : Delimited d.characters e)
    (hat : use.IsAt d e) : ∃ q b, use.Spelled d e q b := by
  obtain ⟨b, q, r, hstands, hend, hle, hbegins⟩ := h
  obtain ⟨hquote, -, -, hclosed⟩ := closed_of_literalEnd? hstands hend
  refine ⟨q, b, hat, hquote, ⟨r, hstands, hend⟩, hclosed, ?_⟩
  rcases Nat.lt_or_eq_of_le hle with hlt | heq
  · exact hbegins.imp_right fun hgap => ⟨hlt, hgap⟩
  · exact .inl heq

section

variable {dialect : Dialect} {source : String} {o : Outline} {settings : Settings}

/-- Every use is at a literal. -/
theorem exists_spelled_of_use (h : Outline.ofSource dialect source = .ok o) {use : KeyUse}
    (huse : use ∈ o.keyUses settings (o.bindings settings)) :
    ∃ e q b, use.Spelled (Document.ofString source) e q b := by
  obtain ⟨t, ht, rfl⟩ := Outline.ofSource_eq_ok h
  obtain ⟨es, hsub, hes⟩ := Outline.exists_leaders_of_uses (Document.ofString source) t settings
  obtain ⟨i, hi, rfl⟩ := List.getElem_of_mem huse
  have hi' : i < es.length := hes.length_eq ▸ hi
  have hmem := mem_of_mem_leaders (hsub.subset (List.getElem_mem hi'))
  exact ⟨es[i], exists_spelled (((row_parseModule ht).literal hmem).2.2 rfl) (hes.get hi hi')⟩

/-- No place lies in two stretches if one of them ends before the other begins. -/
theorem not_covers_both {e e' : Extent} (hhi : Text.IsBetween (Document.ofString source).characters e.hi)
    (hlo : Text.IsBetween (Document.ofString source).characters e'.lo) (hlt : e.hi < e'.lo) (p : Position) :
    ¬ (Covers (Document.ofString source) e p ∧ Covers (Document.ofString source) e' p) := by
  rintro ⟨⟨-, hstop⟩, hstart, -⟩
  have hbefore := Document.before_place hhi hlo hlt
  rw [Position.upTo_iff] at hstop hstart
  rw [Position.before_iff] at hbefore
  omega

/-- **No place lies in the literals of two uses.** Their literals are leaders
of the source, and in a row of stretches one leader ends in front of the next
one, with the parenthesis of its call in between. -/
theorem apart_of_uses (h : Outline.ofSource dialect source = .ok o) (settings : Settings) :
    (o.keyUses settings (o.bindings settings)).Pairwise fun use use' =>
      ∀ p, ¬ (use.span.contains p = true ∧ use'.span.contains p = true) := by
  obtain ⟨t, ht, rfl⟩ := Outline.ofSource_eq_ok h
  obtain ⟨es, ⟨fs, hperm, hsub⟩, hes⟩ := Outline.exists_leaders_of_uses (Document.ofString source) t settings
  have hrow := row_parseModule ht
  have hmem : ∀ e ∈ es, .literal e true ∈ t.stretches :=
    fun e he => mem_of_mem_leaders (hsub.subset (hperm.mem_iff.mpr he))
  have hapart : es.Pairwise fun e e' => e.hi < e'.lo ∨ e'.hi < e.lo := by
    rw [← hperm.pairwise_iff fun h => h.symm]
    exact (hrow.pairwise_leaders.2.sublist hsub).imp fun hlt => .inl hlt
  rw [List.pairwise_iff_getElem]
  intro i j hi hj hij p
  have hi' : i < es.length := hes.length_eq ▸ hi
  have hj' : j < es.length := hes.length_eq ▸ hj
  have hatI : KeyUse.IsAt _ _ es[i] := hes.get hi hi'
  have hatJ : KeyUse.IsAt _ _ es[j] := hes.get hj hj'
  rw [List.get_eq_getElem] at hatI hatJ
  obtain ⟨hloI, hhiI, -⟩ := hrow.literal (hmem es[i] (List.getElem_mem hi'))
  obtain ⟨hloJ, hhiJ, -⟩ := hrow.literal (hmem es[j] (List.getElem_mem hj'))
  rw [hatI.contains_iff, hatJ.contains_iff]
  rcases List.pairwise_iff_getElem.mp hapart i j hi' hj' hij with hlt | hlt
  · exact not_covers_both hhiI hloJ hlt p
  · exact fun hboth => not_covers_both hhiJ hloI hlt p hboth.symm

/-- **The stretch of a use is that of its literal, quotes included, unless an
old sign stands in front.** Then the place of the sign lies in the one, but not
in the other. -/
theorem KeyUse.Spelled.covers_iff {use : KeyUse} {e : Extent} {q : Char} {b : Nat}
    (h : use.Spelled (Document.ofString source) e q b) :
    (∀ p, Covers (Document.ofString source) e p ↔ Covers (Document.ofString source) ⟨b, e.hi⟩ p) ↔ e.lo = b := by
  constructor
  · intro hsame
    -- at an old sign, the place of the sign itself makes the difference
    rcases h.begins with heq | ⟨hlt, hold, -⟩
    · exact heq
    obtain ⟨r, hstands, hend⟩ := h.opened
    obtain ⟨-, hle, hhi, -⟩ := closed_of_literalEnd? hstands hend
    have hself : Covers (Document.ofString source) e ((Document.ofString source).place e.lo).position := by
      refine ⟨(Document.upTo_place_iff hold.isBetween hold.isBetween).mpr (Nat.le_refl _), ?_⟩
      exact (Document.upTo_place_iff hold.isBetween hhi).mpr (by omega)
    obtain ⟨hup, -⟩ := (hsame _).mp hself
    have hback : b ≤ e.lo := (Document.upTo_place_iff hstands.isBetween hold.isBetween).mp hup
    omega
  · rintro rfl
    exact fun p => Iff.rfl

end

/-! ## One result at a place

The results are gone through in some order and the first with the place is
shown. If no two of them have a place in common, the order cannot matter:
filtering by the place leaves at most one. -/

section

variable {results results' : List Resolution} {p : Position}

/-- Results without a common place. -/
def Apart (results : List Resolution) : Prop :=
  results.Pairwise fun r r' => ∀ p, ¬ (r.span.contains p = true ∧ r'.span.contains p = true)

/-- At most one result has a given place. -/
theorem Apart.length_filter_le (h : Apart results) (p : Position) :
    (results.filter (·.span.contains p)).length ≤ 1 := by
  have hpairwise := List.Pairwise.filter (·.span.contains p) h
  have hmem : ∀ r ∈ results.filter (·.span.contains p), r.span.contains p = true :=
    fun r hr => (List.mem_filter.mp hr).2
  cases hlist : results.filter (·.span.contains p) with
  | nil => exact Nat.zero_le _
  | cons r rest =>
    cases rest with
    | nil => exact Nat.le_refl _
    | cons r' rest =>
      rw [hlist] at hpairwise hmem
      have hboth := (List.pairwise_cons.mp hpairwise).1 r' List.mem_cons_self p
      exact absurd ⟨hmem r (by simp), hmem r' (by simp)⟩ hboth

/-- The result whose key is at the place is the one that is found. -/
theorem Apart.find?_eq (h : Apart results) {r : Resolution} (hr : r ∈ results) (hp : r.span.contains p = true) :
    results.find? (·.span.contains p) = some r := by
  have hlength := h.length_filter_le p
  have hmem : r ∈ results.filter (·.span.contains p) := List.mem_filter.mpr ⟨hr, hp⟩
  rw [← List.head?_filter]
  cases hlist : results.filter (·.span.contains p) with
  | nil => exact absurd hmem (by simp [hlist])
  | cons r' rest =>
    rw [hlist, List.length_cons] at hlength
    obtain rfl := List.eq_nil_of_length_eq_zero (by omega : rest.length = 0)
    rw [hlist, List.mem_singleton] at hmem
    rw [hmem, List.head?_cons]

/-- **In whatever order the results come**, the same one is found. At most one
of them has the place, and a list of at most one element is the same in any
order. -/
theorem Apart.hover_perm (h : Apart results) (hperm : results'.Perm results) (locale : String) (p : Position) :
    hover results' locale p = hover results locale p := by
  have hlength := h.length_filter_le p
  have hfilter := hperm.filter (·.span.contains p)
  rw [hover, hover, ← List.head?_filter, ← List.head?_filter]
  -- the place is that of no result or of one, in any order
  cases hlist : results.filter (·.span.contains p) with
  | nil =>
    rw [hlist, List.perm_nil] at hfilter
    rw [hfilter]
  | cons r rest =>
    rw [hlist, List.length_cons] at hlength
    obtain rfl := List.eq_nil_of_length_eq_zero (by omega : rest.length = 0)
    rw [hlist, List.perm_singleton] at hfilter
    rw [hfilter]

end

/-! ## What is shown

The report and the hover text are made from the same results by different
functions, and the claim compares what they say. `FileReport.Reads` spells out
both cases, for a key with a text and for one without, and says in each that
the other list has nothing at the place. That needs results at different
places, since entries are told apart by where they are. -/

/-- What is shown for the key at the place is what the report has there: the
text of the key if it is among the resolved ones, and the same warning if it is
among the missing ones. The report has one entry at the place. -/
def FileReport.Reads (report : FileReport) (messages : Messages) (p : Position) (shown : HoverText) : Prop :=
  (∃ text, messages[shown.key]? = some text ∧ shown.text = "i18n " ++ report.locale ++ " -> " ++ text ∧
    (∀ entry, entry ∈ report.resolved ∧ entry.position = p ↔ entry = ⟨shown.key, p, text⟩) ∧
    ∀ entry ∈ report.missing, entry.position ≠ p) ∨
  messages[shown.key]? = none ∧ (∀ entry ∈ report.resolved, entry.position ≠ p) ∧
    ∀ entry, entry ∈ report.missing ∧ entry.position = p ↔ entry = ⟨shown.key, p, shown.text⟩

/-- If all results are at different places, the entry at the place of a result
is that of this result. -/
theorem mem_filterMap_position_iff {results : List Resolution} (h : (results.map (·.position)).Nodup) {r : Resolution}
    (hr : r ∈ results) {f : Resolution → Option Entry}
    (hf : ∀ r entry, f r = some entry → entry.position = r.position) (entry : Entry) :
    entry ∈ results.filterMap f ∧ entry.position = r.position ↔ f r = some entry := by
  rw [List.mem_filterMap]
  constructor
  · rintro ⟨⟨r', hr', hentry⟩, hposition⟩
    have hsame : r'.position = r.position := (hf r' entry hentry).symm.trans hposition
    rwa [← List.inj_on_of_nodup_map h hr' hr hsame]
  · exact fun hentry => ⟨⟨r, hr, hentry⟩, hf r entry hentry⟩

/-- **What is shown for a result is what the report on all results has at its
place.** The place singles the entry out, because no two results are at the
same. -/
theorem FileReport.reads_of_mem {results : List Resolution} (h : (results.map (·.position)).Nodup) {r : Resolution}
    (hr : r ∈ results) {messages : Messages} (htext : r.text = messages[r.key]?) (uri : String) (version : Int)
    (locale : String) :
    (ofResolutions uri version locale results).Reads messages r.position (r.hoverText locale) := by
  have hresolved : ∀ entry, entry ∈ (ofResolutions uri version locale results).resolved ∧
      entry.position = r.position ↔ r.asResolved? = some entry :=
    mem_filterMap_position_iff h hr Resolution.position_of_asResolved?
  have hmissing : ∀ entry, entry ∈ (ofResolutions uri version locale results).missing ∧
      entry.position = r.position ↔ r.asMissing? = some entry :=
    mem_filterMap_position_iff h hr Resolution.position_of_asMissing?
  cases hsays : r.text with
  | some text =>
    have hshown : r.hoverText locale = ⟨r.key, "i18n " ++ locale ++ " -> " ++ text⟩ := by
      rw [Resolution.hoverText, hsays]
    rw [hshown]
    refine .inl ⟨text, htext ▸ hsays, rfl, fun entry => ?_, fun entry hentry hposition => ?_⟩
    · rw [hresolved, Resolution.asResolved?, hsays, Option.map_some, Option.some.injEq, eq_comm]
    · have hnone := (hmissing entry).mp ⟨hentry, hposition⟩
      rw [Resolution.asMissing?, hsays] at hnone
      exact absurd hnone (by simp)
  | none =>
    have hshown : r.hoverText locale = ⟨r.key, missingWarning r.key⟩ := by
      rw [Resolution.hoverText, hsays]
    rw [hshown]
    refine .inr ⟨htext ▸ hsays, fun entry hentry hposition => ?_, fun entry => ?_⟩
    · have hnone := (hresolved entry).mp ⟨hentry, hposition⟩
      rw [Resolution.asResolved?, hsays] at hnone
      exact absurd hnone (by simp)
    · rw [hmissing, Resolution.asMissing?, hsays, Option.isNone_none, if_pos rfl, Option.some.injEq, eq_comm]

/-- The uses of a source are those that the rule gives. -/
theorem mem_keyUses_iff_isUse {dialect : Dialect} {source : String} {o : Outline}
    (h : Outline.ofSource dialect source = .ok o) {settings : Settings} {use : KeyUse} :
    use ∈ o.keyUses settings (o.bindings settings) ↔ ∃ c, o.IsUse settings c use := by
  obtain ⟨t, -, rfl⟩ := Outline.ofSource_eq_ok h
  rw [← Outline.map_snd_foundUses, List.mem_map]
  constructor
  · rintro ⟨⟨c, use⟩, hfound, rfl⟩
    exact ⟨c, Outline.useAt?_ofShape_iff.mp (Outline.mem_foundUses.mp hfound)⟩
  · rintro ⟨c, hisUse⟩
    exact ⟨⟨c, use⟩, Outline.mem_foundUses.mpr (Outline.useAt?_ofShape_iff.mpr hisUse), rfl⟩

/-- **Hovering shows one key use, and what the report says of it.** Whatever
the settings and the messages are, at most one result has the place, so the
order of the results does not matter. A place shows something if and only if it
lies in the literal of a key use, and then the key of the use is shown, with
its text if the report lists it as resolved and else with the warning that the
report has. Each use is at a literal of its own, and that is from the opening
quote to right behind the closing one, unless it begins at an old sign in front
of the quote. -/
theorem hover_iff_in_literal {dialect : Dialect} {source : String} {o : Outline}
    (hsource : Outline.ofSource dialect source = .ok o) (settings : Settings) (messages : Messages)
    (uri : String) (version : Int) (locale : String) :
    let d := Document.ofString source
    let bindings := o.bindings settings
    let results := o.resolve settings bindings messages
    let report := FileReport.ofResolutions uri version locale results
    (∀ p, (results.filter (·.span.contains p)).length ≤ 1) ∧
      (∀ results', results'.Perm results → ∀ p, hover results' locale p = hover results locale p) ∧
      (∀ p, (hover results locale p).isSome = true ↔
        ∃ c use e q b, o.IsUse settings c use ∧ KeyUse.Spelled d use e q b ∧ Covers d e p) ∧
      (∀ c use, o.IsUse settings c use → ∃ e q b, KeyUse.Spelled d use e q b) ∧
      (∀ use e q b, KeyUse.Spelled d use e q b →
        ((∀ p, Covers d e p ↔ Covers d ⟨b, e.hi⟩ p) ↔ e.lo = b)) ∧
      ∀ c use e q b p, o.IsUse settings c use → KeyUse.Spelled d use e q b → Covers d e p →
        ∃ shown, hover results locale p = some shown ∧
          shown.key = composeKey ((bindings[use.binding]?).elim "" (·.prefixKey)) use.suffix ∧
          report.Reads messages use.position shown := by
  intro d bindings results report
  -- the three facts that all parts rest on: uses do not meet, they end at
  -- different places, and each is spelled as it should be
  have hapart : Apart results := List.pairwise_map.mpr (apart_of_uses hsource settings)
  have hnodup : (results.map (·.position)).Nodup := by
    have hpositions : results.map (·.position) = (o.keyUses settings bindings).map (·.position) := List.map_map
    exact hpositions ▸ Outline.nodup_positions hsource settings
  have hspelled : ∀ c use, o.IsUse settings c use → ∃ e q b, KeyUse.Spelled d use e q b :=
    fun c use hisUse => exists_spelled_of_use hsource ((mem_keyUses_iff_isUse hsource).mpr ⟨c, hisUse⟩)
  have hshown : ∀ c use e q b p, o.IsUse settings c use → KeyUse.Spelled d use e q b → Covers d e p →
      hover results locale p = some ((use.resolve bindings messages).hoverText locale) ∧
        use.resolve bindings messages ∈ results := by
    intro c use e q b p hisUse hat hcovers
    have hmem : use.resolve bindings messages ∈ results :=
      List.mem_map_of_mem ((mem_keyUses_iff_isUse hsource).mpr ⟨c, hisUse⟩)
    have hcontains : (use.resolve bindings messages).span.contains p = true :=
      (hat.isAt.contains_iff p).mpr hcovers
    -- no two spans of the report share a place, so that the one found is this
    -- one, whatever stands before it
    rw [hover, hapart.find?_eq hmem hcontains]
    exact ⟨rfl, hmem⟩
  refine ⟨hapart.length_filter_le, fun results' hperm p => hapart.hover_perm hperm locale p, fun p => ?_, hspelled,
    fun use e q b => KeyUse.Spelled.covers_iff, ?_⟩
  · constructor
    · intro hsome
      rw [hover, Option.isSome_map] at hsome
      obtain ⟨r, hr⟩ := Option.isSome_iff_exists.mp hsome
      obtain ⟨use, huse, rfl⟩ := List.mem_map.mp (List.mem_of_find?_eq_some hr)
      have hcontains := List.find?_some hr
      obtain ⟨c, hisUse⟩ := (mem_keyUses_iff_isUse hsource).mp huse
      obtain ⟨e, q, b, hat⟩ := hspelled c use hisUse
      exact ⟨c, use, e, q, b, hisUse, hat, (hat.isAt.contains_iff p).mp hcontains⟩
    · rintro ⟨c, use, e, q, b, hisUse, hat, hcovers⟩
      rw [(hshown c use e q b p hisUse hat hcovers).1]
      rfl
  · intro c use e q b p hisUse hat hcovers
    obtain ⟨hhover, hmem⟩ := hshown c use e q b p hisUse hat hcovers
    refine ⟨_, hhover, ?_, FileReport.reads_of_mem hnodup hmem rfl uri version locale⟩
    rw [Resolution.hoverText]
    split <;> rfl

/-- A cursor in the key of a source with one use. -/
theorem hover_iff_in_literal_of_call :
    let d := Document.ofString "let t=useI18n();t('a')"
    let messages : Messages := (∅ : Messages).insert "a" "A"
    ∃ o, Outline.ofSource .tsx "let t=useI18n();t('a')" = .ok o ∧
      let results := o.resolve {} (o.bindings {}) messages
      let report := FileReport.ofResolutions "a.tsx" 0 "en" results
      (results.filter (·.span.contains ⟨1, 20⟩)).length ≤ 1 ∧
        ∃ c use e q b shown, o.IsUse {} c use ∧ KeyUse.Spelled d use e q b ∧ Covers d e ⟨1, 20⟩ ∧
          hover results.reverse "en" ⟨1, 20⟩ = some shown ∧ report.Reads messages use.position shown := by
  intro d messages
  obtain ⟨o, ho, hsome⟩ : ∃ o, Outline.ofSource .tsx "let t=useI18n();t('a')" = .ok o ∧
      (hover (o.resolve {} (o.bindings {}) messages) "en" ⟨1, 20⟩).isSome = true :=
    exists_ok_of_any (by decide +kernel)
  refine ⟨o, ho, ?_⟩
  intro results report
  obtain ⟨hone, hperm, hiff, -, -, hshown⟩ := hover_iff_in_literal ho {} messages "a.tsx" 0 "en"
  obtain ⟨c, use, e, q, b, hisUse, hat, hcovers⟩ := (hiff ⟨1, 20⟩).mp hsome
  obtain ⟨shown, hhover, -, hreads⟩ := hshown c use e q b ⟨1, 20⟩ hisUse hat hcovers
  have hreverse := hperm results.reverse results.reverse_perm ⟨1, 20⟩
  exact ⟨hone ⟨1, 20⟩, c, use, e, q, b, shown, hisUse, hat, hcovers, hreverse.trans hhover, hreads⟩

/-- A key behind a comment of the old forms. It is shown in front of the
comment, where its literal is not. -/
theorem hovered_in_comment :
    let d := Document.ofString "let t=useI18n();t(<!-- c\n'k')"
    Stands d.characters 25 "'k')".toList ∧ literalEnd? '\'' 25 "k')".toList = some 28 ∧
      ¬ Covers d ⟨25, 28⟩ ⟨1, 19⟩ ∧
      ∃ o, Outline.ofSource .ts "let t=useI18n();t(<!-- c\n'k')" = .ok o ∧
        hover (o.resolve {} (o.bindings {}) ∅) "en" ⟨1, 19⟩ = some ⟨"k", missingWarning "k"⟩ := by
  intro d
  obtain ⟨o, ho, hshown⟩ : ∃ o, Outline.ofSource .ts "let t=useI18n();t(<!-- c\n'k')" = .ok o ∧
      (hover (o.resolve {} (o.bindings {}) ∅) "en" ⟨1, 19⟩ == some ⟨"k", missingWarning "k"⟩) = true :=
    exists_ok_of_any (by decide +kernel)
  refine ⟨⟨"let t=useI18n();t(<!-- c\n".toList, by decide +kernel, by decide +kernel⟩, by decide +kernel,
    ?_, o, ho, eq_of_beq hshown⟩
  rintro ⟨hstart, -⟩
  exact absurd hstart (by decide +kernel)

end LocaleKeys
