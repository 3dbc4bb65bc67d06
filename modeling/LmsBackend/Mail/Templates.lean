import LmsBackend.Mail.EscapeHtml

/-!
# Templates

What the renderer is for: a template is a tree, and its value follows the tree. The
three passes over the text come to the same.
-/

open Text

namespace LmsBackend.Mail

inductive Template where
  | done
  | text (t : List Char) (rest : Template)
  | token (key : List Char) (rest : Template)
  /-- `space` stands between `if` or `unless` and the key. -/
  | block (kind : Kind) (space key : List Char) (body rest : Template)

namespace Template

def source : Template → List Char
  | done => []
  | text t rest => t ++ rest.source
  | token key rest => "\x7b\x7b".toList ++ (key ++ ("\x7d\x7d".toList ++ rest.source))
  | block kind space key body rest =>
    kind.opening ++ (space ++ (key ++ ("\x7d\x7d".toList ++
      (body.source ++ (kind.closing ++ rest.source)))))

/-- `String(vars[k])`, or nothing if it is undefined or null. -/
def tokenValue (vars : TemplateVars) (escape : Bool) (key : List Char) : List Char :=
  let v := vars.get key
  if v = .undefined ∨ v = .null then [] else if escape then escapeHtml v.text else v.text

def eval (vars : TemplateVars) (escape : Bool) : Template → List Char
  | done => []
  | text t rest => t ++ rest.eval vars escape
  | token key rest => tokenValue vars escape key ++ rest.eval vars escape
  | block kind _ key body rest =>
    (if kind.shows (vars.get key) then body.eval vars escape else []) ++ rest.eval vars escape

/-- No block of this kind is in it, at any depth. -/
def Lacks (kind : Kind) : Template → Prop
  | done => True
  | text _ rest | token _ rest => rest.Lacks kind
  | block kind' _ _ body rest => kind' ≠ kind ∧ body.Lacks kind ∧ rest.Lacks kind

/-- Literal text. -/
def Plain (t : List Char) : Prop := ¬['{', '{'] <:+: t ∧ t.getLast? ≠ some '{'

/-- A text of one character or more of a class. -/
def Of (cls : Char → Bool) (t : List Char) : Prop := t ≠ [] ∧ ∀ c ∈ t, cls c = true

def WellFormed : Template → Prop
  | done => True
  | text t rest => Plain t ∧ rest.WellFormed
  | token key rest => Of isWord key ∧ rest.WellFormed
  | block kind space key body rest =>
    Of isSpace space ∧ Of isWord key ∧ body.Lacks kind ∧ body.WellFormed ∧ rest.WellFormed

end Template

open Template

attribute [local simp] source eval Lacks WellFormed

/-! ## Tags -/

/-- What is after the braces. -/
def Kind.opens : Kind → List Char
  | .ifBlock => ['#', 'i', 'f']
  | .unlessBlock => ['#', 'u', 'n', 'l', 'e', 's', 's']

def Kind.closes : Kind → List Char
  | .ifBlock => ['/', 'i', 'f', '}', '}']
  | .unlessBlock => ['/', 'u', 'n', 'l', 'e', 's', 's', '}', '}']

theorem Kind.opening_eq (kind : Kind) : kind.opening = '{' :: '{' :: kind.opens := by
  cases kind <;> rfl

theorem Kind.closing_eq (kind : Kind) : kind.closing = '{' :: '{' :: kind.closes := by
  cases kind <;> rfl

theorem skips_plain {l t s : List Char} (h : Plain t) : Skips ('{' :: '{' :: l) t s := by
  obtain ⟨hbraces, hlast⟩ := h
  induction t with
  | nil => trivial
  | cons c t ih =>
    refine ⟨fun hpre => ?_, ih (fun hin => hbraces ?_) fun hend => hlast ?_⟩
    · obtain ⟨rfl, hnext⟩ := List.cons_prefix_cons.mp hpre
      rcases t with _ | ⟨c', t⟩
      · exact hlast rfl
      · obtain ⟨rfl, _⟩ := List.cons_prefix_cons.mp hnext
        exact hbraces ⟨[], t, rfl⟩
    · exact hin.trans (List.suffix_cons c t).isInfix
    · rcases t with _ | ⟨c', t⟩
      · cases hend
      · rw [List.getLast?_cons_cons]
        exact hend

/-- Another tag than the one that starts with `l`. -/
theorem skips_tag {l q s : List Char} (hq : q ≠ []) (hbrace : '{' ∉ q) (hl : ¬l <+: q ++ s) :
    Skips ('{' :: '{' :: l) ('{' :: '{' :: q) s := by
  refine ⟨fun hpre => ?_, fun hpre => ?_, skips_of_notMem hbrace⟩
  · exact hl (List.cons_prefix_cons.mp (List.cons_prefix_cons.mp hpre).2).2
  · obtain ⟨_, hnext⟩ := List.cons_prefix_cons.mp hpre
    rcases q with _ | ⟨c, q⟩
    · exact hq rfl
    · obtain ⟨rfl, _⟩ := List.cons_prefix_cons.mp hnext
      exact hbrace List.mem_cons_self

theorem isWord_of_isSpace : ∀ c, isSpace c = true → isWord c = false := by
  intro c hc
  have hall : (['\t', '\n', '\x0b', '\x0c', '\r', ' ', '\u00a0', '\u1680', '\u2000',
      '\u2001', '\u2002', '\u2003', '\u2004', '\u2005', '\u2006', '\u2007', '\u2008', '\u2009',
      '\u200a', '\u2028', '\u2029', '\u202f', '\u205f', '\u3000', '\ufeff'].all
      fun c => !isWord c) = true := by
    decide
  exact Bool.not_eq_true' _ ▸ List.all_eq_true.mp hall c (of_decide_eq_true hc)

theorem Template.Of.notMem {cls : Char → Bool} {t : List Char} (h : Of cls t) {c : Char}
    (hc : cls c = false) : c ∉ t := by
  intro hmem
  rw [h.2 c hmem] at hc
  cases hc

theorem Template.Of.head {cls : Char → Bool} {t s : List Char} (h : Of cls t) :
    ∃ c, (t ++ s).head? = some c ∧ cls c = true := by
  rcases t with _ | ⟨c, t⟩
  · exact absurd rfl h.1
  · exact ⟨c, rfl, h.2 c List.mem_cons_self⟩

/-- What starts with another character does not start with this. -/
theorem not_prefix_of_head {l s : List Char} {a c : Char} (hl : l.head? = some a)
    (hs : s.head? = some c) (hne : a ≠ c) : ¬l <+: s := by
  intro hpre
  rcases l with _ | ⟨a', l⟩
  · cases hl
  · rcases s with _ | ⟨c', s⟩
    · cases hs
    · cases hl
      cases hs
      exact hne (List.cons_prefix_cons.mp hpre).1

theorem skips_token {l key s : List Char} {a : Char} (hkey : Of isWord key)
    (hl : l.head? = some a) (ha : isWord a = false) :
    Skips ('{' :: '{' :: l) ('{' :: '{' :: (key ++ ['}', '}'])) s := by
  obtain ⟨c, hhead, hc⟩ := hkey.head (s := ['}', '}'] ++ s)
  refine skips_tag (by simp) ?_ ?_
  · rw [List.mem_append, not_or]
    exact ⟨hkey.notMem (by decide), by decide⟩
  · rw [List.append_assoc]
    refine not_prefix_of_head hl hhead fun h => ?_
    rw [← h, ha] at hc
    cases hc

theorem Kind.opens_head (kind : Kind) : kind.opens.head? = some '#' := by
  cases kind <;> rfl

theorem Kind.closes_head (kind : Kind) : kind.closes.head? = some '/' := by
  cases kind <;> rfl

theorem opens_apart {kind kind' : Kind} (hne : kind' ≠ kind) (s : List Char) :
    ¬kind.opens <+: kind'.opens ++ s := by
  rcases kind with _ | _ <;> rcases kind' with _ | _
  · exact absurd rfl hne
  · simp [Kind.opens]
  · simp [Kind.opens]
  · exact absurd rfl hne

theorem closes_apart {kind kind' : Kind} (hne : kind' ≠ kind) (s : List Char) :
    ¬kind.closes <+: kind'.closes ++ s := by
  rcases kind with _ | _ <;> rcases kind' with _ | _
  · exact absurd rfl hne
  · simp [Kind.closes]
  · simp [Kind.closes]
  · exact absurd rfl hne

/-- The rest of an opening tag, up to its braces. -/
theorem skips_opening {l space key s : List Char} {kind : Kind} (hspace : Of isSpace space)
    (hkey : Of isWord key) (hl : ∀ s, ¬l <+: kind.opens ++ s) :
    Skips ('{' :: '{' :: l) ('{' :: '{' :: (kind.opens ++ (space ++ (key ++ ['}', '}'])))) s := by
  refine skips_tag (by simp [hspace.1]) ?_ ?_
  · simp only [List.mem_append, not_or]
    refine ⟨?_, hspace.notMem (by decide), hkey.notMem (by decide), by decide⟩
    cases kind <;> decide
  · rw [List.append_assoc]
    exact hl _

theorem skips_closing {l s : List Char} {kind : Kind} (hl : ∀ s, ¬l <+: kind.closes ++ s) :
    Skips ('{' :: '{' :: l) ('{' :: '{' :: kind.closes) s := by
  refine skips_tag ?_ ?_ (hl s)
  · cases kind <;> decide
  · cases kind <;> decide

theorem opens_not_closes (kind kind' : Kind) (s : List Char) :
    ¬kind.opens <+: kind'.closes ++ s := by
  refine not_prefix_of_head kind.opens_head (c := '/') ?_ (by decide)
  cases kind' <;> rfl

theorem closes_not_opens (kind kind' : Kind) (s : List Char) :
    ¬kind.closes <+: kind'.opens ++ s := by
  refine not_prefix_of_head kind.closes_head (c := '#') ?_ (by decide)
  cases kind' <;> rfl

/-! ## Sources -/

/-- The source of a block, tag by tag. -/
theorem source_block (kind : Kind) (space key : List Char) (body rest : Template) :
    (block kind space key body rest).source =
      ('{' :: '{' :: (kind.opens ++ (space ++ (key ++ ['}', '}'])))) ++
        (body.source ++ (('{' :: '{' :: kind.closes) ++ rest.source)) := by
  simp [kind.opening_eq, kind.closing_eq]

theorem source_token (key : List Char) (rest : Template) :
    (token key rest).source = ('{' :: '{' :: (key ++ ['}', '}'])) ++ rest.source := by
  simp

/-- Where no block of a kind is, no block of it ends. -/
theorem skips_source {kind : Kind} {t : Template} (hwf : t.WellFormed) (hlacks : t.Lacks kind)
    (s : List Char) : Skips kind.closing t.source s := by
  rw [kind.closing_eq]
  induction t generalizing s with
  | done => trivial
  | text t rest ih =>
    exact skips_append.mpr ⟨skips_plain hwf.1, ih hwf.2 hlacks s⟩
  | token key rest ih =>
    rw [source_token]
    refine skips_append.mpr ⟨skips_token hwf.1 kind.closes_head (by decide), ih hwf.2 hlacks s⟩
  | block kind' space key body rest ihbody ihrest =>
    obtain ⟨hspace, hkey, _, hbody, hrest⟩ := hwf
    rw [source_block]
    refine skips_append.mpr ⟨skips_opening hspace hkey (closes_not_opens kind kind'), ?_⟩
    refine skips_append.mpr ⟨ihbody hbody hlacks.2.1 _, ?_⟩
    refine skips_append.mpr ⟨?_, ihrest hrest hlacks.2.2 s⟩
    exact skips_closing (closes_apart hlacks.1)

/-! ## The passes -/

namespace Template

def append : Template → Template → Template
  | done, u => u
  | text t rest, u => text t (rest.append u)
  | token key rest, u => token key (rest.append u)
  | block kind space key body rest, u => block kind space key body (rest.append u)

/-- The template after the replacement of the blocks of a kind. -/
def resolve (kind : Kind) (vars : TemplateVars) : Template → Template
  | done => done
  | text t rest => text t (rest.resolve kind vars)
  | token key rest => token key (rest.resolve kind vars)
  | block kind' space key body rest =>
    if kind' = kind then
      if kind.shows (vars.get key) then body.append (rest.resolve kind vars)
      else rest.resolve kind vars
    else block kind' space key (body.resolve kind vars) (rest.resolve kind vars)

attribute [local simp] append resolve

variable {kind : Kind} {vars : TemplateVars} {escape : Bool}

theorem source_append (t u : Template) : (t.append u).source = t.source ++ u.source := by
  induction t with
  | done => rfl
  | text t rest ih => rw [append, source, ih, source, List.append_assoc]
  | token key rest ih => rw [append, source_token, ih, source_token, List.append_assoc]
  | block kind space key body rest _ ih =>
    rw [append, source_block, ih, source_block]
    simp only [List.append_assoc]

theorem eval_append (t u : Template) :
    (t.append u).eval vars escape = t.eval vars escape ++ u.eval vars escape := by
  induction t with
  | done => rfl
  | text t rest ih => rw [append, eval, ih, eval, List.append_assoc]
  | token key rest ih => rw [append, eval, ih, eval, List.append_assoc]
  | block kind space key body rest _ ih => rw [append, eval, ih, eval, List.append_assoc]

theorem lacks_append {t u : Template} : (t.append u).Lacks kind ↔ t.Lacks kind ∧ u.Lacks kind := by
  induction t with
  | done => simp
  | text t rest ih => exact ih
  | token key rest ih => exact ih
  | block kind' space key body rest _ ih => simp only [append, Lacks, ih, and_assoc]

theorem wellFormed_append {t u : Template} :
    (t.append u).WellFormed ↔ t.WellFormed ∧ u.WellFormed := by
  induction t with
  | done => simp
  | text t rest ih => simp only [append, WellFormed, ih, and_assoc]
  | token key rest ih => simp only [append, WellFormed, ih, and_assoc]
  | block kind' space key body rest _ ih => simp only [append, WellFormed, ih, and_assoc]

theorem eval_resolve (t : Template) :
    (t.resolve kind vars).eval vars escape = t.eval vars escape := by
  induction t with
  | done => rfl
  | text t rest ih => rw [resolve, eval, ih, eval]
  | token key rest ih => rw [resolve, eval, ih, eval]
  | block kind' space key body rest ihbody ihrest =>
    rw [resolve, eval]
    split
    · subst kind'
      split
      · rw [eval_append, ihrest]
      · rw [ihrest, List.nil_append]
    · rw [eval, ihbody, ihrest]

theorem lacks_resolve {kind' : Kind} {t : Template} (h : t.Lacks kind' ∨ kind' = kind)
    (hwf : t.WellFormed) : (t.resolve kind vars).Lacks kind' := by
  induction t with
  | done => trivial
  | text t rest ih => exact ih h hwf.2
  | token key rest ih => exact ih h hwf.2
  | block kind₀ space key body rest ihbody ihrest =>
    obtain ⟨_, _, hown, hbody, hrest⟩ := hwf
    have hlacks := ihrest (h.imp_left fun h => h.2.2) hrest
    rw [resolve]
    split
    · subst kind₀
      split
      · refine lacks_append.mpr ⟨?_, hlacks⟩
        rcases h with h | rfl
        · exact h.2.1
        · exact hown
      · exact hlacks
    · refine ⟨?_, ihbody (h.imp_left fun h => h.2.1) hbody, hlacks⟩
      rcases h with h | rfl
      · exact h.1
      · assumption

theorem wellFormed_resolve {t : Template} (h : t.WellFormed) :
    (t.resolve kind vars).WellFormed := by
  induction t with
  | done => trivial
  | text t rest ih => exact ⟨h.1, ih h.2⟩
  | token key rest ih => exact ⟨h.1, ih h.2⟩
  | block kind' space key body rest ihbody ihrest =>
    obtain ⟨hspace, hkey, hown, hbody, hrest⟩ := h
    rw [resolve]
    split
    · split
      · exact wellFormed_append.mpr ⟨hbody, ihrest hrest⟩
      · exact ihrest hrest
    · exact ⟨hspace, hkey, lacks_resolve (.inl hown) hbody, ihbody hbody, ihrest hrest⟩

end Template

/-- A block matches its pattern, as its own end is the first one. -/
theorem matchAt_block {kind : Kind} {space key : List Char} {body : Template} (s : List Char)
    (hspace : Of isSpace space) (hkey : Of isWord key) (hown : body.Lacks kind)
    (hbody : body.WellFormed) :
    matchAt kind.pattern (kind.opening ++ (space ++ (key ++ ("\x7d\x7d".toList ++
      (body.source ++ (kind.closing ++ s)))))) = some ([key, body.source], s) := by
  have hend : matchAt [.lit "\x7d\x7d".toList, .short, .lit kind.closing]
      ("\x7d\x7d".toList ++ (body.source ++ (kind.closing ++ s))) = some ([body.source], s) := by
    rw [matchAt_lit]
    exact matchAt_short (skips_source hbody hown _)
  have hname := matchAt_plus true hkey.1 hkey.2
    (fun c hc => by cases hc; decide) hend
  unfold Kind.pattern
  rw [matchAt_lit]
  refine matchAt_plus false hspace.1 hspace.2 (fun c hc => ?_) hname
  obtain ⟨first, hhead, hword⟩ :=
    hkey.head (s := "\x7d\x7d".toList ++ (body.source ++ (kind.closing ++ s)))
  have hc : first = c := Option.some.inj (hhead.symm.trans hc)
  subst hc
  refine Bool.eq_false_iff.mpr fun hspace => ?_
  rw [isWord_of_isSpace first hspace] at hword
  cases hword

theorem renderBlocks_append {kind : Kind} {vars : TemplateVars} {t : Template} (h : t.WellFormed)
    (s : List Char) :
    renderBlocks kind vars (t.source ++ s) =
      (t.resolve kind vars).source ++ renderBlocks kind vars s := by
  have hskip : ∀ {p s : List Char}, Skips kind.opening p s →
      renderBlocks kind vars (p ++ s) = p ++ renderBlocks kind vars s := fun h =>
    replaceAll_skips h
  have hopening := kind.opening_eq
  induction t generalizing s with
  | done => rfl
  | text t rest ih =>
    rw [source, List.append_assoc, hskip (by rw [hopening]; exact skips_plain h.1), ih h.2, resolve,
      source, List.append_assoc]
  | token key rest ih =>
    rw [source_token, List.append_assoc,
      hskip (by rw [hopening]; exact skips_token h.1 kind.opens_head (by decide)), ih h.2, resolve,
      source_token, List.append_assoc]
  | block kind' space key body rest ihbody ihrest =>
    obtain ⟨hspace, hkey, hown, hbody, hrest⟩ := h
    rw [resolve]
    by_cases hkind : kind' = kind
    · subst hkind
      have hmatch := matchAt_block (rest.source ++ s) hspace hkey hown hbody
      have hsource : (block kind' space key body rest).source ++ s =
          kind'.opening ++ (space ++ (key ++ ("\x7d\x7d".toList ++
            (body.source ++ (kind'.closing ++ (rest.source ++ s)))))) := by
        rw [source]
        simp only [List.append_assoc]
      have hshorter : (rest.source ++ s).length <
          ((block kind' space key body rest).source ++ s).length := by
        rw [hsource, hopening]
        simp only [List.length_append, List.length_cons]
        omega
      rw [← hsource] at hmatch
      rw [if_pos rfl, renderBlocks, replaceAll_some hmatch hshorter]
      refine (congrArg _ (ihrest hrest s)).trans ?_
      rw [blockText]
      by_cases hshows : kind'.shows (vars.get key) = true
      · rw [if_pos hshows, if_pos hshows]
        rw [source_append, List.append_assoc]
      · rw [if_neg hshows, if_neg hshows]
        rw [List.nil_append]
    · rw [if_neg hkind, source_block, source_block]
      simp only [List.append_assoc]
      rw [hskip, ihbody hbody, hskip, ihrest hrest]
      · rw [hopening]
        exact skips_closing (opens_not_closes kind kind')
      · rw [hopening]
        exact skips_opening hspace hkey (opens_apart hkind)

theorem renderBlocks_source {kind : Kind} {vars : TemplateVars} {t : Template}
    (h : t.WellFormed) :
    renderBlocks kind vars t.source = (t.resolve kind vars).source := by
  have hnil : renderBlocks kind vars [] = [] :=
    replaceAll_eq_self trivial (by cases kind <;> decide)
  have happend : renderBlocks kind vars (t.source ++ []) = _ := renderBlocks_append h []
  simpa [hnil] using happend

theorem tokenText_eq (vars : TemplateVars) (escape : Bool) (key : List Char) :
    tokenText vars escape [key] = tokenValue vars escape key := by
  unfold tokenText tokenValue
  rcases h : vars.get key with _ | _ | b | text | s <;> simp [h]

theorem matchAt_token {key : List Char} (hkey : Of isWord key) (s : List Char) :
    matchAt tokenPattern ("\x7b\x7b".toList ++ (key ++ ("\x7d\x7d".toList ++ s))) =
      some ([key], s) := by
  have hend : matchAt [.lit "\x7d\x7d".toList] ("\x7d\x7d".toList ++ s) = some ([], s) :=
    matchAt_lit _ _
  rw [tokenPattern, matchAt_lit]
  exact matchAt_plus true hkey.1 hkey.2 (fun c hc => by cases hc; decide) hend

/-- Without blocks, only tokens are replaced, and what they become is not read again. -/
theorem renderTokens_append {vars : TemplateVars} {escape : Bool} {t : Template}
    (h : t.WellFormed) (hlacks : ∀ kind, t.Lacks kind) (s : List Char) :
    renderTokens (t.source ++ s) vars escape =
      t.eval vars escape ++ renderTokens s vars escape := by
  induction t generalizing s with
  | done => rfl
  | text t rest ih =>
    have hskip : Skips ['{', '{'] t (rest.source ++ s) := skips_plain h.1
    rw [source, List.append_assoc, eval, List.append_assoc, ← ih h.2 hlacks s]
    exact replaceAll_skips hskip
  | token key rest ih =>
    have hsource : (token key rest).source ++ s =
        "\x7b\x7b".toList ++ (key ++ ("\x7d\x7d".toList ++ (rest.source ++ s))) := by
      rw [source]
      simp only [List.append_assoc]
    have hshorter : (rest.source ++ s).length < ((token key rest).source ++ s).length := by
      rw [hsource]
      simp
      omega
    have hmatch := matchAt_token h.1 (rest.source ++ s)
    rw [← hsource] at hmatch
    rw [eval, List.append_assoc, ← ih h.2 hlacks s, ← tokenText_eq]
    exact replaceAll_some hmatch hshorter
  | block kind space key body rest => exact absurd rfl (hlacks kind).1

/-! ## The renderer and the tree -/

theorem render_source {t : Template} (h : t.WellFormed) (vars : TemplateVars) (escape : Bool) :
    renderTokens (renderConditionals t.source vars) vars escape = t.eval vars escape := by
  have hifs : (t.resolve .ifBlock vars).WellFormed := wellFormed_resolve h
  have hlacks : ∀ kind, ((t.resolve .ifBlock vars).resolve .unlessBlock vars).Lacks kind := by
    intro kind
    rcases kind with _ | _
    · exact lacks_resolve (.inl (lacks_resolve (.inr rfl) h)) hifs
    · exact lacks_resolve (.inr rfl) hifs
  have hnil : renderTokens [] vars escape = [] := replaceAll_eq_self trivial (by decide)
  have hrender : renderTokens (_ ++ []) vars escape = _ :=
    renderTokens_append (wellFormed_resolve hifs) hlacks []
  rw [renderConditionals, renderBlocks_source h, renderBlocks_source hifs]
  rw [hnil, List.append_nil, List.append_nil, eval_resolve, eval_resolve] at hrender
  exact hrender

theorem renderTemplate_eq {html text : Template} (hhtml : html.WellFormed)
    (htext : text.WellFormed) (year : Nat) (vars : TemplateVars) :
    renderTemplate html.source text.source year vars =
      ⟨html.eval (merged year vars) true, text.eval (merged year vars) false⟩ := by
  rw [renderTemplate, render_source hhtml, render_source htext]

theorem render_eq_eval {t : Template} (h : t.WellFormed) (vars : TemplateVars) (escape : Bool) :
    renderTokens (renderConditionals t.source vars) vars escape = t.eval vars escape :=
  render_source h vars escape

/-! ## A template with both kinds -/

/-- `{{#if a}}Hi {{#unless b}}{{n}}{{/unless}}{{/if}}` -/
def greeting : Template :=
  .block .ifBlock [' '] ['a']
    (.text ['H', 'i', ' '] (.block .unlessBlock [' '] ['b'] (.token ['n'] .done) .done)) .done

/-- The name looks like a token, and like a pattern of a replacement. -/
def greetingVars : TemplateVars where
  own key :=
    if key = ['a'] then some (.bool true)
    else if key = ['n'] then some (.string "\x7b\x7ba\x7d\x7d$&".toList)
    else none
  inherited _ := .undefined

theorem render_eq_eval_greeting :
    renderTokens (renderConditionals greeting.source greetingVars) greetingVars true =
      "Hi \x7b\x7ba\x7d\x7d$&amp;".toList := by
  have hwf : greeting.WellFormed := by
    simp [greeting, Of, Plain]
    decide
  refine (render_eq_eval hwf greetingVars true).trans ?_
  have hname : tokenValue greetingVars true ['n'] = escapeHtml "\x7b\x7ba\x7d\x7d$&".toList := rfl
  have hbody : greeting.eval greetingVars true =
      ['H', 'i', ' '] ++ tokenValue greetingVars true ['n'] := by
    have hif : Kind.shows .ifBlock (greetingVars.get ['a']) = true := by decide
    have hunless : Kind.shows .unlessBlock (greetingVars.get ['b']) = true := by decide
    simp [greeting, hif, hunless]
  rw [hbody, hname, escapeHtml_eq]
  decide

end LmsBackend.Mail
