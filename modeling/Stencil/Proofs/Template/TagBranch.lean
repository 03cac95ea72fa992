import Stencil.Proofs.Markup.Writing
import Stencil.Proofs.Template.TreeAssembly
import Stencil.Proofs.Text.Reference

/-!
A branch of attributes inside a start tag, as in `<p {{#x}}title="a {{y}}"{{/x}}>`. Each value has
static text and escaped reads in it. The branch is compiled to text that is put out when the tag
renders: names, equals signs and quotes as they stand, static text with its quotes written as
references, and what is read with all its references written.
-/

set_option autoImplicit false

namespace Stencil

variable {δ : Dialect}

/-- A value in quotes: static text, or a read after static text with the rest of the value. -/
inductive QuotedValue where
  | text (content : Text)
  | read (before body : Text) (rest : QuotedValue)

/-- Something that the branch puts out: text as it stands, or the text of a read. -/
inductive Output where
  | text (content : Text)
  | read (body : Text)

/-- An attribute in the branch, with the blanks before it and around its equals sign. -/
structure BranchAttr where
  blanks : Text
  name : Text
  left : Text
  right : Text
  quote : Char
  value : QuotedValue

/-- A start tag with nothing in it but a branch of attributes. -/
structure BranchTag where
  tag : Text
  blanks : Text
  opening : Text
  attributes : List BranchAttr
  last : Text
  closing : Text

def QuotedValue.source : QuotedValue → Text
  | text content => content
  | read before body rest => before ++ Marker.written body ++ rest.source

def BranchAttr.source (b : BranchAttr) : Text :=
  b.blanks ++ b.name ++ b.left ++ ['='] ++ b.right ++ [b.quote] ++ (b.value.source ++ [b.quote])

def BranchTag.branch (t : BranchTag) : Text :=
  Marker.written t.opening ++ (t.attributes.flatMap BranchAttr.source ++ t.last ++
    Marker.written t.closing)

def BranchTag.source (t : BranchTag) : Text := '<' :: (t.tag ++ (t.blanks ++ t.branch))

def Output.written (texts : Text → Text) : Output → Text
  | text content => content
  | read body => Text.escapeAttribute (texts body)

def QuotedValue.outputs : QuotedValue → List Output
  | text content => [.text (Assembly.quoteMarks content)]
  | read before body rest => [.text (Assembly.quoteMarks before), .read body] ++ rest.outputs

def BranchAttr.outputs (b : BranchAttr) : List Output :=
  [.text (b.name ++ ['=', '"'])] ++ (b.value.outputs ++ [.text ['"', ' ']])

def BranchTag.outputs (t : BranchTag) : List Output := t.attributes.flatMap BranchAttr.outputs

/-- A marker of a mode: it is read whole from its braces, and it is no `else`. -/
structure Options.Marks (o : Options δ) (mode : Mode) (body : Text) : Prop where
  whole : ∀ rest, Marker.read? (Marker.written body ++ rest) = some (body, rest)
  hasMode : (o.language.split body).1 = mode
  ne_else : (o.language.split body).2 ≠ "else"

def Options.CompilesTo (o : Options δ) (site : Nat → Site) (mode : Mode) (body : Text)
    (e : δ.Expr) : Prop :=
  ∃ line, o.language.compile mode (o.language.split body).2 (site line) = .ok e

/-- The expression of a marker compiles wherever its tag stands. -/
def Options.Compiles (o : Options δ) (site : Nat → Site) (mode : Mode) (body : Text) : Prop :=
  ∀ line, ∃ e, o.language.compile mode (o.language.split body).2 (site line) = .ok e

section

variable (o : Options δ) (site : Nat → Site)

/-- Static text has no quote and opens no marker, nor does it with the marker after it. -/
def QuotedValue.Valid (quote : Char) : QuotedValue → Prop
  | text content => quote ∉ content ∧ Text.Unmarked content
  | read before body rest =>
    quote ∉ before ∧ Text.Unmarked (before ++ ['{']) ∧ o.Marks .escaped body ∧
      o.Compiles site .escaped body ∧ rest.Valid quote

structure BranchAttr.Valid (b : BranchAttr) : Prop where
  blanks : ∀ c ∈ b.blanks, Tag.isSpace c = true
  around : ∀ c ∈ b.left ++ b.right, Tag.isSpace c = true
  name : Tag.ReadsAsName b.name
  quote : b.quote = '"' ∨ b.quote = '\x27'
  value : b.value.Valid o site b.quote

structure BranchTag.Valid (t : BranchTag) : Prop where
  tag : Tag.ReadsAsTag t.tag
  blanks : t.blanks ≠ [] ∧ ∀ c ∈ t.blanks ++ t.last, Tag.isSpace c = true
  opening : ∃ mode, (mode = .branch ∨ mode = .inverse) ∧ o.Marks mode t.opening ∧
    o.Compiles site mode t.opening
  attributes : ∀ b ∈ t.attributes, b.Valid o site
  closing : o.Marks .close t.closing
  distinct : (t.attributes.map BranchAttr.name).Nodup

/-- The parts put these things out. -/
inductive Output.Compiled : List Output → List (TextPart δ) → Prop
  | nil : Compiled [] []
  | text (content : Text) {outputs : List Output} {parts : List (TextPart δ)}
      (h : Compiled outputs parts) :
      Compiled (.text content :: outputs) (TextPart.ofText content ++ parts)
  | read {body : Text} {e : δ.Expr} {outputs : List Output} {parts : List (TextPart δ)}
      (he : o.CompilesTo site .escaped body e) (h : Compiled outputs parts) :
      Compiled (.read body :: outputs) (.value e true :: parts)

end

theorem Output.Compiled.single_text {o : Options δ} {site : Nat → Site} (content : Text) :
    Compiled o site [.text content] (TextPart.ofText content) := by
  have h : Compiled o site [.text content] (TextPart.ofText content ++ []) := .text content .nil
  rwa [List.append_nil] at h

theorem Output.Compiled.append {o : Options δ} {site : Nat → Site} {us vs : List Output}
    {ps qs : List (TextPart δ)} (h : Compiled o site us ps) (g : Compiled o site vs qs) :
    Compiled o site (us ++ vs) (ps ++ qs) := by
  induction h with
  | nil => exact g
  | text content h ih =>
    rw [List.cons_append, List.append_assoc]
    exact .text content ih
  | read he h ih => exact .read he ih

theorem Marker.written_append (body rest : Text) :
    written body ++ rest = '{' :: '{' :: (body ++ '}' :: '}' :: rest) := by
  simp [written]

theorem Marker.opensAt_cons_cons (c d : Char) (t : Text) :
    opensAt (c :: d :: t) = (c = '{' && d = '{') := by
  by_cases hc : c = '{'
  · subst hc
    rw [Bool.eq_iff_iff, Text.opensAt_brace]
    simp
  · simp [Text.opensAt_eq_false_of_ne hc, hc]

theorem Text.Unmarked.opensAt_append_written {t u : Text} (h : Text.Unmarked (t ++ ['{']))
    (hu : u <:+ t) (hne : u ≠ []) (body rest : Text) :
    Marker.opensAt (u ++ (Marker.written body ++ rest)) = false := by
  obtain ⟨front, rfl⟩ := hu
  have hbrace : u ++ ['{'] <:+ front ++ u ++ ['{'] := ⟨front, by simp⟩
  have hfalse : Marker.opensAt (u ++ ['{'] ++ []) = false :=
    h.opensAt_append hbrace (by simp) (by simp)
  obtain ⟨c, u, rfl⟩ := List.exists_cons_of_ne_nil hne
  rw [Marker.written_append]
  cases u <;> simpa [Marker.opensAt_cons_cons] using hfalse

namespace Scanner

theorem scans_mark_tag {body : Text} (h : Marker.Whole body) (spot : Spot) (t : StartTag)
    (tags : List Text) (rest : Text) :
    Scans ⟨.tag t, spot, Marker.written body ++ rest, tags⟩ [⟨spot, .marker body⟩]
      ⟨.tag t, spot.past (Marker.written body), rest, tags⟩ := by
  have hread := h rest
  rw [Marker.written_append] at hread ⊢
  refine .single rfl ?_
  simp [step, inTag, Marker.opensAt, hread, read, pass, Marker.written]

theorem scans_mark_quoted {body : Text} (h : Marker.Whole body) (spot : Spot) (t : StartTag)
    (name : Text) {quote : Char} (hquote : quote = '"' ∨ quote = '\x27') (tags : List Text)
    (rest : Text) :
    Scans ⟨.quoted t name quote, spot, Marker.written body ++ rest, tags⟩ [⟨spot, .marker body⟩]
      ⟨.quoted t name quote, spot.past (Marker.written body), rest, tags⟩ := by
  have hne : '{' ≠ quote := by
    rintro rfl
    exact absurd hquote (by decide)
  have hread := h rest
  rw [Marker.written_append] at hread ⊢
  refine .single rfl ?_
  simp [step, inQuoted, if_neg hne, inValue, hread, read, pass, Marker.written]

theorem scans_static (spot : Spot) (t : StartTag) (name : Text) (tags : List Text)
    {quote : Char} {content rest : Text} (hquote : quote ∉ content)
    (hopens : ∀ u, u <:+ content → u ≠ [] → Marker.opensAt (u ++ rest) = false)
    (hrest : rest.head? = some quote ∨ Marker.opensAt rest = true) :
    Scans ⟨.quoted t name quote, spot, content ++ rest, tags⟩
      (if content = [] then [] else [⟨spot, .attrValue content⟩])
      ⟨.quoted t name quote, spot.past content, rest, tags⟩ := by
  by_cases hne : content = []
  · subst hne
    exact .nil _
  · rw [if_neg hne]
    exact scans_quotedText spot t name tags hne hquote hopens hrest

end Scanner

def Region.quotes : Region → Bool
  | quoted _ _ _ => true
  | _ => false

namespace Assembly

variable (o : Options δ) (a : Assembly δ) (head : ElementHead δ) (opener : Mode × δ.Expr)

def inTagBranch (parts : List (TextPart δ)) (quotes : Bool) (line : Nat) : Assembly δ :=
  { a with
    tag := some ⟨head, some ⟨.empty, [⟨opener.1, opener.2, TextPart.pushAll [] parts, none⟩],
      quotes⟩⟩
    attr := none
    lastLine := line }

/-- A piece of source takes the scanner from one region to another, and the branch from what it
puts out to that and these outputs. -/
def ReadsInto (r r' : Region) (source : Text) (outputs : List Output) : Prop :=
  ∀ (spot : Spot) (rest : Text) (tags : List Text) (parts : List (TextPart δ)) (line : Nat),
    ∃ events stop line' added,
      Scanner.Scans ⟨r, spot, source ++ rest, tags⟩ events ⟨r', stop, rest, tags⟩ ∧
      Takes o (a.inTagBranch head opener parts r.quotes line) events
        (a.inTagBranch head opener (parts ++ added) r'.quotes line') ∧
      Output.Compiled o (o.site (some head.tag) none a.directlyNested) outputs added

variable {o a head opener}

theorem ReadsInto.append {r r' r'' : Region} {s u : Text} {os us : List Output}
    (h : ReadsInto o a head opener r r' s os) (g : ReadsInto o a head opener r' r'' u us) :
    ReadsInto o a head opener r r'' (s ++ u) (os ++ us) := by
  intro spot rest tags parts line
  obtain ⟨events, stop, line', added, hscan, htakes, hadded⟩ := h spot (u ++ rest) tags parts line
  obtain ⟨events', stop', line'', added', hscan', htakes', hadded'⟩ :=
    g stop rest tags (parts ++ added) line'
  rw [List.append_assoc] at htakes'
  rw [List.append_assoc]
  exact ⟨_, stop', line'', _, hscan.append hscan', htakes.append htakes', hadded.append hadded'⟩

theorem ReadsInto.nil (r : Region) : ReadsInto o a head opener r r [] [] := fun spot _ _ parts line =>
  ⟨[], spot, line, [], .nil _, by rw [List.append_nil]; exact .nil o _, .nil⟩

variable (o a head opener)

theorem addText_inTagBranch (opener : Mode × δ.Expr) (parts : List (TextPart δ)) (quotes : Bool)
    (content : Text) :
    (⟨.empty, [⟨opener.1, opener.2, TextPart.pushAll [] parts, none⟩], quotes⟩ :
      TextDraft δ).addText content =
      ⟨.empty, [⟨opener.1, opener.2, TextPart.pushAll [] (parts ++ TextPart.ofText content), none⟩],
        quotes⟩ := by
  rw [TextDraft.addText_eq, TextPart.pushAll_append]
  exact TextDraft.addAll_withSection ⟨.empty, [], quotes⟩ opener.1 opener.2 _ _

theorem takes_branchStatic (parts : List (TextPart δ)) (line : Nat) (spot : Spot)
    (content : Text) :
    ∃ line', Takes o (a.inTagBranch head opener parts true line)
      (if content = [] then [] else [⟨spot, .attrValue content⟩])
      (a.inTagBranch head opener (parts ++ TextPart.ofText (quoteMarks content)) true line') := by
  by_cases hne : content = []
  · subst hne
    exact ⟨line, by simpa [quoteMarks, TextPart.ofText] using Takes.nil o _⟩
  · rw [if_neg hne]
    refine ⟨spot.line, Takes.single ?_⟩
    simp only [step, attrValue, inTagBranch, addText_inTagBranch]

theorem takes_branchName (parts : List (TextPart δ)) (line : Nat) (spot : Spot) (name : Text) :
    Takes o (a.inTagBranch head opener parts false line) [⟨spot, .attrStart name⟩]
      (a.inTagBranch head opener (parts ++ TextPart.ofText (name ++ ['=', '"'])) true
        spot.line) := by
  refine Takes.single ?_
  simp only [step, attrStart, inTagBranch, addText_inTagBranch]

theorem takes_branchEnd (parts : List (TextPart δ)) (line : Nat) (spot : Spot) (name : Text) :
    Takes o (a.inTagBranch head opener parts true line) [⟨spot, .attrEnd name⟩]
      (a.inTagBranch head opener (parts ++ TextPart.ofText ['"', ' ']) false spot.line) := by
  refine Takes.single ?_
  simp only [step, attrEnd, inTagBranch, addText_inTagBranch]

variable {a}

theorem site_inTagBranch (ha : a.rawText = none) (parts : List (TextPart δ)) (quotes : Bool)
    (line : Nat) : (a.inTagBranch head opener parts quotes line).site o line =
      o.site (some head.tag) none a.directlyNested line := by
  simp [site, inTagBranch, Options.site, directlyNested, ha]

theorem takes_branchRead {o : Options δ} (ha : a.rawText = none) {body : Text} (hm : o.Marks .escaped body)
    (hc : o.Compiles (o.site (some head.tag) none a.directlyNested) .escaped body)
    (parts : List (TextPart δ)) (line : Nat) (spot : Spot) :
    ∃ e, o.CompilesTo (o.site (some head.tag) none a.directlyNested) .escaped body e ∧
      Takes o (a.inTagBranch head opener parts true line) [⟨spot, .marker body⟩]
        (a.inTagBranch head opener (parts ++ [.value e true]) true spot.line) := by
  obtain ⟨e, he⟩ := hc spot.line
  refine ⟨e, ⟨spot.line, he⟩, Takes.single ?_⟩
  have hsite := site_inTagBranch o head opener ha parts true spot.line
  rw [← hsite] at he
  simp only [step, marker, hm.hasMode, if_neg hm.ne_else]
  simp only [inTagBranch, markerInBranch, Draft.apply] at he ⊢
  rw [he]
  simp [bind, Except.bind, pure, Except.pure, record, Draft.addValue, TextDraft.addValue,
    TextDraft.add, TextLayer.add, TextPart.pushAll]

section

variable {o head opener} {t : StartTag} {name : Text} {quote : Char}

theorem readsInto_blanks {blanks : Text} (h : ∀ c ∈ blanks, Tag.isSpace c = true) :
    ReadsInto o a head opener (.tag t) (.tag t) blanks [] := fun spot rest tags parts line =>
  ⟨[], _, line, [], Scanner.scans_tagBlanks spot t tags h rest,
    by rw [List.append_nil]; exact .nil o _, .nil⟩

theorem readsInto_name {left right : Text} (hname : Tag.ReadsAsName name)
    (hblanks : ∀ c ∈ left ++ right, Tag.isSpace c = true) (hquote : quote = '"' ∨ quote = '\x27') :
    ReadsInto o a head opener (.tag t) (.quoted t name quote)
      (name ++ left ++ ['='] ++ right ++ [quote]) [.text (name ++ ['=', '"'])] := by
  intro spot rest tags parts line
  have hequals := Scanner.scans_nameEquals spot t tags hname hblanks (quote :: rest)
  have hopen := Scanner.scans_quoteStart (spot.past (name ++ (left ++ '=' :: right))) t name tags
    hquote rest
  have htakes := takes_branchName o a head opener parts line spot name
  have hsource : name ++ left ++ ['='] ++ right ++ [quote] ++ rest =
      name ++ (left ++ '=' :: (right ++ quote :: rest)) := by simp
  rw [hsource]
  exact ⟨_, _, _, _, hequals.append hopen, htakes.append (.nil o _), .single_text _⟩

theorem readsInto_read (ha : a.rawText = none) (hquote : quote = '"' ∨ quote = '\x27')
    {before body : Text} (hbefore : quote ∉ before) (hm : Text.Unmarked (before ++ ['{']))
    (hbody : o.Marks .escaped body)
    (hc : o.Compiles (o.site (some head.tag) none a.directlyNested) .escaped body) :
    ReadsInto o a head opener (.quoted t name quote) (.quoted t name quote)
      (before ++ Marker.written body) [.text (quoteMarks before), .read body] := by
  intro spot rest tags parts line
  have hstatic := Scanner.scans_static spot t name tags hbefore
    (fun u hu hne => hm.opensAt_append_written hu hne body rest) (.inr rfl)
  have hmark := Scanner.scans_mark_quoted hbody.whole (spot.past before) t name hquote tags rest
  obtain ⟨line', htext⟩ := takes_branchStatic o a head opener parts line spot before
  obtain ⟨e, he, hread⟩ := takes_branchRead head opener ha hbody hc
    (parts ++ TextPart.ofText (quoteMarks before)) line' (spot.past before)
  have hadded := Output.Compiled.text (quoteMarks before) (.read he .nil)
  rw [List.append_assoc] at hread
  rw [List.append_assoc]
  exact ⟨_, _, _, _, hstatic.append hmark, htext.append hread, hadded⟩

theorem readsInto_last {content : Text} (hquote : quote = '"' ∨ quote = '\x27')
    (hcontent : quote ∉ content) (hm : Text.Unmarked content) :
    ReadsInto o a head opener (.quoted t name quote) (.tag t) (content ++ [quote])
      [.text (quoteMarks content), .text ['"', ' ']] := by
  intro spot rest tags parts line
  have hbrace : (quote :: rest).head? ≠ some '{' := by
    rintro heq
    cases heq
    exact absurd hquote (by decide)
  have hstatic := Scanner.scans_static spot t name tags hcontent
    (fun u hu hne => hm.opensAt_append hu hne hbrace) (.inl rfl)
  have hend := Scanner.scans_quoteEnd (spot.past content) t name tags quote rest
  obtain ⟨line', htext⟩ := takes_branchStatic o a head opener parts line spot content
  have hlast := takes_branchEnd o a head opener (parts ++ TextPart.ofText (quoteMarks content)) line'
    (spot.past content) name
  rw [List.append_assoc] at hlast
  have hsource : content ++ [quote] ++ rest = content ++ quote :: rest := by simp
  rw [hsource]
  exact ⟨_, _, _, _, hstatic.append hend, htext.append hlast, .text _ (.single_text _)⟩

end

end Assembly

open Assembly in
theorem QuotedValue.readsInto {o : Options δ} {a : Assembly δ} {head : ElementHead δ}
    {opener : Mode × δ.Expr} (ha : a.rawText = none) (t : StartTag) (name : Text) {quote : Char}
    (hquote : quote = '"' ∨ quote = '\x27') (v : QuotedValue)
    (h : v.Valid o (o.site (some head.tag) none a.directlyNested) quote) :
    ReadsInto o a head opener (.quoted t name quote) (.tag t) (v.source ++ [quote])
      (v.outputs ++ [.text ['"', ' ']]) := by
  induction v with
  | text content => exact readsInto_last hquote h.1 h.2
  | read before body rest ih =>
    obtain ⟨hbefore, hm, hbody, hc, hrest⟩ := h
    have hread : ReadsInto o a head opener (.quoted t name quote) (.quoted t name quote)
        (before ++ Marker.written body) [.text (quoteMarks before), .read body] :=
      readsInto_read ha hquote hbefore hm hbody hc
    have hall := hread.append (ih hrest)
    simpa [source, outputs] using hall

open Assembly in
theorem BranchAttr.readsInto {o : Options δ} {a : Assembly δ} {head : ElementHead δ}
    {opener : Mode × δ.Expr} (ha : a.rawText = none) (t : StartTag) (b : BranchAttr)
    (h : b.Valid o (o.site (some head.tag) none a.directlyNested)) :
    ReadsInto o a head opener (.tag t) (.tag t) b.source b.outputs := by
  have hblanks : ReadsInto o a head opener (.tag t) (.tag t) b.blanks [] :=
    readsInto_blanks h.blanks
  have hname : ReadsInto o a head opener (.tag t) (.quoted t b.name b.quote)
      (b.name ++ b.left ++ ['='] ++ b.right ++ [b.quote]) [.text (b.name ++ ['=', '"'])] :=
    readsInto_name h.name h.around h.quote
  have hvalue : ReadsInto o a head opener (.quoted t b.name b.quote) (.tag t)
      (b.value.source ++ [b.quote]) (b.value.outputs ++ [.text ['"', ' ']]) :=
    b.value.readsInto ha t b.name h.quote h.value
  have hall := hblanks.append (hname.append hvalue)
  simpa [source, outputs] using hall

open Assembly in
theorem BranchAttr.readsIntoAll {o : Options δ} {a : Assembly δ} {head : ElementHead δ}
    {opener : Mode × δ.Expr} (ha : a.rawText = none) (t : StartTag) (bs : List BranchAttr)
    (h : ∀ b ∈ bs, b.Valid o (o.site (some head.tag) none a.directlyNested)) :
    ReadsInto o a head opener (.tag t) (.tag t) (bs.flatMap source) (bs.flatMap outputs) := by
  induction bs with
  | nil => exact .nil _
  | cons b bs ih =>
    exact (b.readsInto ha t (h b List.mem_cons_self)).append
      (ih fun c hc => h c (List.mem_cons_of_mem b hc))

namespace Assembly

variable {o : Options δ} {a : Assembly δ} {head : ElementHead δ}

theorem site_inTag (o : Options δ) (head : ElementHead δ) (ha : a.rawText = none) (line : Nat) :
    (a.inTag head line).site o line = o.site (some head.tag) none a.directlyNested line := by
  simp [site, inTag, Options.site, directlyNested, ha]

theorem takes_branchOpen (ha : a.rawText = none) {mode : Mode} {body : Text}
    (hmode : mode = .branch ∨ mode = .inverse) (hm : o.Marks mode body)
    (hc : o.Compiles (o.site (some head.tag) none a.directlyNested) mode body) (line : Nat)
    (spot : Spot) :
    ∃ e, o.CompilesTo (o.site (some head.tag) none a.directlyNested) mode body e ∧
      Takes o (a.inTag head line) [⟨spot, .marker body⟩]
        (a.inTagBranch head (mode, e) [] false spot.line) := by
  obtain ⟨e, he⟩ := hc spot.line
  refine ⟨e, ⟨spot.line, he⟩, Takes.single ?_⟩
  have hsite := site_inTag o head ha spot.line
  rw [← hsite] at he
  rcases hmode with rfl | rfl <;>
  · simp only [step, marker, hm.hasMode, if_neg hm.ne_else]
    simp only [inTag, markerInTag, Draft.apply] at he ⊢
    rw [he]
    rfl

theorem takes_branchClose {mode : Mode} (hmode : mode ≠ .inlineTemplate) (e : δ.Expr) {body : Text}
    (hm : o.Marks .close body) (parts : List (TextPart δ)) (quotes : Bool) (line : Nat)
    (spot : Spot) :
    Takes o (a.inTagBranch head (mode, e) parts quotes line) [⟨spot, .marker body⟩]
      (a.inTag { head with
        hooks := head.hooks ++ [.tagText [.branch e (TextPart.pushAll [] parts) none]] }
        spot.line) := by
  have hclose := fun site => TextDraft.apply_close (o := o) site ⟨.empty, [], quotes⟩ hmode e
    (TextPart.pushAll [] parts) none (o.language.split body).2
  refine Takes.single ?_
  simp only [step, marker, hm.hasMode, if_neg hm.ne_else]
  simp only [inTagBranch, markerInBranch]
  simp only [TextDraft.withSection] at hclose
  rw [hclose]
  rfl

end Assembly

def BranchTag.HookOf (o : Options δ) (site : Nat → Site) (t : BranchTag) (hook : Hook δ) : Prop :=
  ∃ e parts, o.CompilesTo site (o.language.split t.opening).1 t.opening e ∧
    Output.Compiled o site t.outputs parts ∧
    hook = .tagText [.branch e (TextPart.pushAll [] parts) none]

open Assembly in
theorem BranchTag.reads_branch {o : Options δ} {a : Assembly δ} (ha : a.rawText = none)
    (head : ElementHead δ) {t : BranchTag}
    (h : t.Valid o (o.site (some head.tag) none a.directlyNested)) (tag : StartTag) (spot : Spot)
    (tags : List Text) (rest : Text) (line : Nat) :
    ∃ events stop line' hook,
      Scanner.Scans ⟨.tag tag, spot, t.branch ++ rest, tags⟩ events ⟨.tag tag, stop, rest, tags⟩ ∧
      Takes o (a.inTag head line) events
        (a.inTag { head with hooks := head.hooks ++ [hook] } line') ∧
      t.HookOf o (o.site (some head.tag) none a.directlyNested) hook := by
  obtain ⟨mode, hmode, hopening, hcompiles⟩ := h.opening
  obtain ⟨e, he, hopen⟩ := takes_branchOpen ha hmode hopening hcompiles line spot
  have hlast : ReadsInto o a head (mode, e) (.tag tag) (.tag tag) t.last [] :=
    readsInto_blanks fun c hc => h.blanks.2 c (List.mem_append_right _ hc)
  have hattrs : ReadsInto o a head (mode, e) (.tag tag) (.tag tag)
      (t.attributes.flatMap BranchAttr.source) t.outputs :=
    BranchAttr.readsIntoAll ha tag t.attributes h.attributes
  have hinside := hattrs.append hlast
  rw [List.append_nil] at hinside
  obtain ⟨events, stop, line', parts, hscan, htakes, hparts⟩ := hinside
    (spot.past (Marker.written t.opening)) (Marker.written t.closing ++ rest) tags [] spot.line
  have hinline : mode ≠ .inlineTemplate := by
    rcases hmode with rfl | rfl <;> decide
  have hsource : t.branch ++ rest = Marker.written t.opening ++
      (t.attributes.flatMap BranchAttr.source ++ t.last ++ (Marker.written t.closing ++ rest)) := by
    simp only [branch, List.append_assoc]
  rw [hsource]
  exact ⟨_, _, _, _,
    (Scanner.scans_mark_tag hopening.whole spot tag tags _).append
      (hscan.append (Scanner.scans_mark_tag h.closing.whole stop tag tags rest)),
    hopen.append (htakes.append (takes_branchClose hinline e h.closing parts false line' stop)),
    e, parts, hopening.hasMode.symm ▸ he, hparts, rfl⟩

open Assembly in
/-- Wherever it stands in content, the tag is read and put together to a start tag with one hook,
its branch. -/
theorem BranchTag.reads {o : Options δ} {a : Assembly δ} (ha : a.InContent) {t : BranchTag}
    (h : t.Valid o (o.site (some t.tag) none a.directlyNested)) (spot : Spot) (tags : List Text)
    (rest : Text) :
    ∃ unary events stop line hook,
      Scanner.Scans ⟨.content, spot, t.source ++ '>' :: rest, tags⟩ events
        ⟨.tag ⟨t.tag, unary⟩, stop, '>' :: rest, tags⟩ ∧
      Takes o a events ({ a with namespaces := pushed a.namespaces t.tag unary }.inTag
        ⟨t.tag, a.ns.inside t.tag, [], [hook]⟩ line) ∧
      t.HookOf o (o.site (some t.tag) none a.directlyNested) hook := by
  obtain ⟨c, blanks, hblanks⟩ := List.exists_cons_of_ne_nil h.blanks.1
  have hspaces : ∀ d ∈ t.blanks, Tag.isSpace d = true := fun d hd =>
    h.blanks.2 d (List.mem_append_left _ hd)
  have hsource : t.source ++ '>' :: rest =
      '<' :: (t.tag ++ c :: (blanks ++ (t.branch ++ '>' :: rest))) := by
    simp [source, hblanks]
  generalize hunary : (Tag.isVoid t.tag || Skim.selfClosing .plain ' '
    (c :: (blanks ++ (t.branch ++ '>' :: rest)))) = unary
  have hstart := Scanner.scans_startTag spot h.tag tags
    (.inr (hspaces c (by simp [hblanks]))) (blanks ++ (t.branch ++ '>' :: rest)) hunary.symm
  have hspace := Scanner.scans_tagBlanks (spot.past ('<' :: t.tag)) ⟨t.tag, unary⟩ tags hspaces
    (t.branch ++ '>' :: rest)
  rw [hblanks] at hspace
  have hbegin := takes_tagStart (o := o) ha (spot.past ['<']) t.tag unary
  obtain ⟨events, stop, line, hook, hscan, htakes, hhook⟩ := reads_branch (a :=
    { a with namespaces := pushed a.namespaces t.tag unary }) ha.rawText
    ⟨t.tag, a.ns.inside t.tag, [], []⟩ h ⟨t.tag, unary⟩
    ((spot.past ('<' :: t.tag)).past (c :: blanks)) tags ('>' :: rest) (spot.past ['<']).line
  rw [hsource]
  exact ⟨unary, _, stop, line, hook, hstart.append (hspace.append hscan), hbegin.append htakes,
    hhook⟩

end Stencil
