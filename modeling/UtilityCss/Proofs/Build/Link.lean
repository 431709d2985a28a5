import UtilityCss.Proofs.Build.Footprint
import UtilityCss.Proofs.File.Normal
import UtilityCss.Proofs.Text

/-!
# Links to the stylesheet

A target refers to the stylesheet by its way down from the directory of the target, if there is one,
and by its whole path otherwise (`Delivery.href_eq`). Both lead from that directory to the stylesheet,
but the whole path starts at the root (`Delivery.href_resolves`).
-/

namespace UtilityCss

namespace Delivery

variable {css : String} {output target dir : Path} {s s' : Session}

/-- The tag that refers to the stylesheet. -/
def linkTag (href : String) : String := "<link rel=\"stylesheet\" href=\"" ++ href ++ "\">\n"

/-- A document that gets a link is as before on both sides of it. -/
theorem linkStylesheet_eq {html href : String} (h : Markup.linkStylesheet html href ≠ html) :
    ∃ before after, html = before ++ after ∧
      Markup.linkStylesheet html href = before ++ linkTag href ++ after := by
  unfold Markup.linkStylesheet at h ⊢
  split at h
  · exact absurd rfl h
  rename_i hrefers
  rw [if_neg hrefers, Markup.insertInHead?]
  rw [Markup.insertInHead?] at h
  cases hsplit : Text.splitBeforeLower? Markup.headClose html.toList with
  | none =>
      rw [hsplit] at h
      exact absurd rfl h
  | some parts =>
      refine ⟨String.ofList parts.1, String.ofList parts.2, ?_, rfl⟩
      rw [← String.ofList_append, ← Text.splitBeforeLower?_eq hsplit, String.ofList_toList]

/-- A target that is changed has got a link with the reference to the stylesheet. -/
theorem linked_of_toTarget
    (h : (toTarget .link css output target).run s = (.ok ⟨none, [target], []⟩, s')) :
    ∃ before after, s.tree.readText target = .ok (before ++ after) ∧
      s'.tree.node? target.place =
        some (.file (.text (before ++ linkTag (href output target) ++ after))) := by
  rcases toTarget_cases .link css output target s with
    ⟨r, hrun, hr⟩ | ⟨html, s₁, hread, hstyled, hrun, hreplace⟩
  · rw [hrun] at h
    cases h
    cases hr
  · rw [hrun] at h
    cases h
    obtain ⟨before, after, rfl, hlinked⟩ := linkStylesheet_eq hstyled
    refine ⟨before, after, hread, ?_⟩
    rw [← hlinked]
    exact (Tree.replaces_of_replace hreplace).2

/-- The reference is the row of names that leads to the stylesheet, or its whole path. -/
theorem href_eq (hout : output.IsNormal) (htarget : target.IsNormal)
    (hdir : target.parent? = some dir) (hslash : '\\' ∉ output.text.toList) :
    ⟨href output target⟩ = if dir.place <+: output.place
      then Path.ofPieces .unsaid ((output.place.drop dir.place.length).map String.toList)
      else output := by
  have hnames : ∀ name ∈ output.place, '\\' ∉ name.toList := by
    intro name hname hmem
    apply hslash
    rw [hout.eq_ofPlace, Path.ofPlace_eq, String.toList_append]
    exact List.mem_append_right _ ((Path.mem_row (by decide)).2 ⟨name, hname, hmem⟩)
  unfold href
  rw [hdir, Option.bind_some, hout.from? (htarget.of_parent? hdir)]
  split
  · rw [Option.getD_some, Path.ofPieces_unsaid_eq]
    refine congrArg Path.mk (Text.replaceChar_of_not_mem fun hmem => ?_)
    obtain ⟨name, hname, hmem⟩ := (Path.mem_row (by decide)).1 hmem
    exact hnames name (List.mem_of_mem_drop hname) hmem
  · exact congrArg Path.mk (Text.replaceChar_of_not_mem hslash)

/-- The reference leads from the directory of a target to the stylesheet. It does not start at the root
if the stylesheet lies below the directory, and is its whole path otherwise. -/
theorem href_resolves (hout : output.IsNormal) (htarget : target.IsNormal)
    (hdir : target.parent? = some dir) (hslash : '\\' ∉ output.text.toList) :
    (dir.join ⟨href output target⟩).normalize = output ∧
      (dir.place <+: output.place → (href output target).toList.head? ≠ some '/') ∧
      (¬ dir.place <+: output.place → href output target = output.text) ∧
      ∀ css s s', (toTarget .link css output target).run s = (.ok ⟨none, [target], []⟩, s') →
        ∃ before after, s.tree.readText target = .ok (before ++ after) ∧
          s'.tree.node? target.place =
            some (.file (.text (before ++ linkTag (href output target) ++ after))) := by
  have hhref := href_eq hout htarget hdir hslash
  have hnames : ∀ name ∈ output.place.drop dir.place.length, Path.IsName name :=
    fun name hn => Path.isName_of_mem_place (List.mem_of_mem_drop hn)
  refine ⟨?_, fun hbelow => ?_, fun hbeside => ?_, fun css s s' => linked_of_toTarget⟩
  · rw [hhref]
    split
    · rename_i hbelow
      rw [Path.normalize, Path.place_join_names dir hnames, List.prefix_iff_eq_append.1 hbelow]
      exact hout
    · rw [Path.join, if_pos hout.isAbsolute]
      exact hout
  · rw [if_pos hbelow] at hhref
    have hrelative := Path.isAbsolute_ofPieces_unsaid hnames
    rw [← hhref, Bool.eq_false_iff, ne_eq, Path.isAbsolute_iff] at hrelative
    exact hrelative
  · rw [if_neg hbeside] at hhref
    exact congrArg Path.text hhref

/-- A page and a stylesheet in a directory beside it. -/
theorem href_resolves_below :
    let output : Path := ⟨"/w/css/site.css"⟩
    let target : Path := ⟨"/w/index.html"⟩
    let dir : Path := ⟨"/w"⟩
    output.IsNormal ∧ target.IsNormal ∧ target.parent? = some dir ∧ '\\' ∉ output.text.toList ∧
      (dir.join ⟨href output target⟩).normalize = output ∧
      (dir.place <+: output.place → (href output target).toList.head? ≠ some '/') ∧
      (¬ dir.place <+: output.place → href output target = output.text) ∧
      ∀ css s s', (toTarget .link css output target).run s = (.ok ⟨none, [target], []⟩, s') →
        ∃ before after, s.tree.readText target = .ok (before ++ after) ∧
          s'.tree.node? target.place =
            some (.file (.text (before ++ linkTag (href output target) ++ after))) := by
  intro output target dir
  have hout : output.IsNormal := by decide +kernel
  have htarget : target.IsNormal := by decide +kernel
  have hdir : target.parent? = some dir := by decide +kernel
  have hslash : '\\' ∉ output.text.toList := by decide +kernel
  exact ⟨hout, htarget, hdir, hslash, href_resolves hout htarget hdir hslash⟩

/-- A page beside the directory of the stylesheet refers to it from the root, and a backslash in the
name of the stylesheet gets lost. -/
theorem not_href_relative_nor_resolves :
    (¬ ∀ output target dir : Path, output.IsNormal → target.IsNormal → target.parent? = some dir →
        (href output target).toList.head? ≠ some '/') ∧
      ¬ ∀ output target dir : Path, output.IsNormal → target.IsNormal → target.parent? = some dir →
        (dir.join ⟨href output target⟩).normalize = output := by
  constructor
  · intro h
    have hbeside := h ⟨"/w/css/site.css"⟩ ⟨"/w/pages/index.html"⟩ ⟨"/w/pages"⟩ (by decide +kernel)
      (by decide +kernel) (by decide +kernel)
    exact hbeside (by decide +kernel)
  · intro h
    have hbackslash := h ⟨"/w/a\\b.css"⟩ ⟨"/w/index.html"⟩ ⟨"/w"⟩ (by decide +kernel)
      (by decide +kernel) (by decide +kernel)
    exact absurd hbackslash (by decide +kernel)

end Delivery

end UtilityCss
