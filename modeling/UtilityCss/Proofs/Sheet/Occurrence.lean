import UtilityCss.Proofs.Expansion.Machine
import UtilityCss.Proofs.OrderedMap
import UtilityCss.Sheet

/-!
# Tokens by first occurrence

What a class index holds is read off the uses of candidates, one after the other as they stand in the
documents: the tokens are those of the uses without repetition, a token counts its uses, and its
sources are those of its uses without repetition (`uses_ofUses`, by the same step for each use). The
index of documents is that of all their uses (`ofDocuments_eq`), so its tokens depend on the texts
alone (`tokens_ofDocuments`; for one document, `Compiler.classesOf_eq`).

The rules of a stylesheet are made one after the other with one list of diagnostics, and no token
sees what another left there (`generates_iff`).
-/

namespace UtilityCss

/-- The candidates of a document, as often as they occur. -/
def Compiler.candidates (c : Compiler) (document : String) : List String :=
  (Markup.classTokens document).filter c.isCandidate

/-! ### The index -/

namespace ClassIndex

/-- The index of uses, each a token and the source that it stands in. -/
def ofUses (uses : List (String × String)) : ClassIndex :=
  uses.foldl (fun i u => i.addToken u.1 u.2) ∅

/-- The uses of candidates in documents, each document with the name of its source. -/
def usesIn (c : Compiler) (documents : List (String × String)) : List (String × String) :=
  documents.flatMap fun d => (c.candidates d.2).map (·, d.1)

/-- What uses say about a token: how often it is used, and where, each source once. -/
def useOf (uses : List (String × String)) (token : String) : ClassUse :=
  ⟨(uses.map Prod.fst).count token,
    ((uses.filter fun u => u.1 = token).map Prod.snd).eraseDups⟩

variable {c : Compiler} {uses : List (String × String)} {documents : List (String × String)}
  {token other source : String}

theorem useOf_concat_self : useOf (uses ++ [(token, source)]) token =
    (useOf uses token).again source := by
  simp [useOf, ClassUse.again, eraseDups_concat]

theorem useOf_concat_of_ne (h : other ≠ token) : useOf (uses ++ [(token, source)]) other =
    useOf uses other := by
  simp [useOf, h.symm]

/-- A token that is not used yet. -/
theorem useOf_of_not_mem (h : token ∉ uses.map Prod.fst) : useOf uses token = ⟨0, []⟩ := by
  have hnone : uses.filter (fun u => u.1 = token) = [] := by
    rw [List.filter_eq_nil_iff]
    intro u hu e
    exact h (List.mem_map.2 ⟨u, hu, by simpa using e⟩)
  rw [useOf, List.count_eq_zero_of_not_mem h, hnone]
  rfl

theorem ofUses_concat : ofUses (uses ++ [(token, source)]) =
    (ofUses uses).addToken token source := by
  simp [ofUses]

/-- Tokens stand in the order of their first use, and each holds what the uses say about it. -/
theorem uses_ofUses (uses : List (String × String)) :
    (ofUses uses).uses.keys = (uses.map Prod.fst).eraseDups ∧
    ∀ t ∈ uses.map Prod.fst, (ofUses uses).uses.get? t = some (useOf uses t) := by
  induction uses using List.reverseRecOn with
  | nil => exact ⟨rfl, nofun⟩
  | append_singleton uses u ih =>
      obtain ⟨token, source⟩ := u
      obtain ⟨hkeys, hget⟩ := ih
      -- what the index holds at the token before the use is counted
      have hbefore : ((ofUses uses).uses.get? token).getD ⟨0, []⟩ = useOf uses token := by
        by_cases hmem : token ∈ uses.map Prod.fst
        · rw [hget token hmem, Option.getD_some]
        · have hnone : (ofUses uses).uses.get? token = none := by
            rw [← Option.not_isSome_iff_eq_none, OrderedMap.get?_isSome_iff, hkeys,
              List.mem_eraseDups]
            exact hmem
          rw [hnone, Option.getD_none, useOf_of_not_mem hmem]
      have hstep : (ofUses (uses ++ [(token, source)])).uses =
          (ofUses uses).uses.insert token (useOf (uses ++ [(token, source)]) token) := by
        rw [ofUses_concat, useOf_concat_self, ← hbefore]
        rfl
      rw [hstep]
      refine ⟨?_, fun t ht => ?_⟩
      · rw [OrderedMap.keys_insert, hkeys, List.map_append, List.map_cons, List.map_nil,
          eraseDups_concat]
        simp only [List.mem_eraseDups]
      · by_cases he : t = token
        · rw [he, OrderedMap.get?_insert_self]
        · have hmem : t ∈ uses.map Prod.fst := by simpa [he] using ht
          rw [OrderedMap.get?_insert_of_ne he, hget t hmem, useOf_concat_of_ne he]

theorem entries_ofUses : (ofUses uses).uses.entries =
    ((uses.map Prod.fst).eraseDups).map fun t => (t, useOf uses t) := by
  obtain ⟨hkeys, hget⟩ := uses_ofUses uses
  rw [← hkeys]
  refine OrderedMap.entries_eq_map fun t ht => hget t ?_
  rwa [hkeys, List.mem_eraseDups] at ht

theorem ofDocuments_eq (c : Compiler) (documents : List (String × String)) :
    ofDocuments c documents = ofUses (usesIn c documents) := by
  simp only [ofDocuments, ofUses, usesIn, addDocument, Compiler.candidates, List.foldl_flatMap,
    List.foldl_map]

theorem map_fst_usesIn : (usesIn c documents).map Prod.fst =
    (documents.map Prod.snd).flatMap c.candidates := by
  simp [usesIn, List.map_flatMap, List.flatMap_map, Function.comp_def]

/-- The uses of a token in one document. -/
theorem filter_uses (l : List String) : ((l.map (·, source)).filter fun u => u.1 = token).map Prod.snd =
    List.replicate (l.count token) source := by
  induction l with
  | nil => rfl
  | cons t l ih =>
      by_cases h : t = token
      · simpa [h, List.replicate_succ] using ih
      · simpa [h] using ih

/-- The sources of the uses of a token are those of the documents that hold it. -/
theorem sources_usesIn :
    (((usesIn c documents).filter fun u => u.1 = token).map Prod.snd).eraseDups =
      ((documents.filter fun d => token ∈ c.candidates d.2).map Prod.fst).eraseDups := by
  induction documents using List.reverseRecOn with
  | nil => rfl
  | append_singleton documents d ih =>
      have huses : usesIn c (documents ++ [d]) =
          usesIn c documents ++ (c.candidates d.2).map (·, d.1) := by simp [usesIn]
      rw [huses, List.filter_append, List.map_append, filter_uses, List.filter_append,
        List.map_append]
      -- the last document adds its source as often as it holds the token, which is once or never
      by_cases hmem : token ∈ c.candidates d.2
      · have hd : [d].filter (fun d => token ∈ c.candidates d.2) = [d] := by simp [hmem]
        rw [hd, eraseDups_append_replicate (Nat.pos_iff_ne_zero.1 (List.count_pos_iff.2 hmem))]
        exact eraseDups_concat_congr ih
      · have hd : [d].filter (fun d => token ∈ c.candidates d.2) = [] := by simp [hmem]
        rw [hd, List.count_eq_zero_of_not_mem hmem]
        simpa using ih

theorem tokens_ofDocuments (c : Compiler) (documents : List (String × String)) :
    (ofDocuments c documents).tokens = ((documents.map Prod.snd).flatMap c.candidates).eraseDups := by
  rw [ofDocuments_eq, ← map_fst_usesIn]
  exact (uses_ofUses _).1

/-- What a token holds is read off the documents. -/
theorem useOf_usesIn : useOf (usesIn c documents) token =
    ⟨((documents.map Prod.snd).flatMap c.candidates).count token,
      ((documents.filter fun d => token ∈ c.candidates d.2).map Prod.fst).eraseDups⟩ := by
  rw [useOf, map_fst_usesIn, sources_usesIn]

theorem nodup_tokens (i : ClassIndex) : i.tokens.Nodup := i.uses.nodup_keys

end ClassIndex

theorem Compiler.classesOf_eq (c : Compiler) (document : String) :
    c.classesOf document = (c.candidates document).eraseDups := by
  have h := ClassIndex.tokens_ofDocuments c [("", document)]
  rwa [List.map_singleton, List.flatMap_singleton] at h

/-! ### The rules -/

namespace Compiler
open State

/-- Tokens are compiled to rules one after the other, each with the diagnostics that were found
before it. -/
inductive Generates (c : Compiler) :
    List String → List Diagnostic → List (Option String) → List Diagnostic → Prop where
  | done {found : List Diagnostic} : Generates c [] found [] found
  | next {token : String} {tokens : List String} {css : Option String}
      {results : List (Option String)} {found after last : List Diagnostic}
      (h : c.Steps (start token .rule found) (final css after))
      (hs : Generates c tokens after results last) :
      Generates c (token :: tokens) found (css :: results) last

variable {c : Compiler} {token : String} {tokens : List String} {mode : EmitMode}
  {css : Option String} {results : List (Option String)} {found after last : List Diagnostic}

/-- A run ends in one way. -/
theorem Steps.eq_of_stuck {s t t' : State} (h : c.Steps s t) (h' : c.Steps s t')
    (ht : ∀ u, ¬ c.Step t u) (ht' : ∀ u, ¬ c.Step t' u) : t = t' := by
  have hdet : Relator.RightUnique c.Step := fun _ _ _ h h' => h.det h'
  -- one of the runs goes on from where the other ends, and there it is stuck
  rcases Relation.ReflTransGen.total_of_right_unique hdet h h' with hr | hr
  · rcases Relation.ReflTransGen.cases_head hr with he | ⟨u, hstep, -⟩
    · exact he
    · exact absurd hstep (ht u)
  · rcases Relation.ReflTransGen.cases_head hr with he | ⟨u, hstep, -⟩
    · exact he.symm
    · exact absurd hstep (ht' u)

theorem eq_of_steps_final (h : c.Steps (start token mode found) (final css after)) :
    css = (c.compile token mode).css ∧ after = found ++ (c.compile token mode).diagnostics := by
  have he := h.eq_of_stuck (steps_final c token mode found) (fun _ => not_step_final)
    fun _ => not_step_final
  injection he with hcontrol _ _ hfound
  injection hcontrol with hcss
  exact ⟨hcss, hfound⟩

/-- **No token sees another.**  Whatever was found before, each token has the result that it has
alone, and its diagnostics stand behind those of the tokens before it. -/
theorem generates_iff : c.Generates tokens found results last ↔
    results = tokens.map (fun t => (c.compile t .rule).css) ∧
      last = found ++ tokens.flatMap fun t => (c.compile t .rule).diagnostics := by
  constructor
  · intro h
    induction h with
    | done => simp
    | next h _ ih =>
        obtain ⟨rfl, rfl⟩ := eq_of_steps_final h
        obtain ⟨rfl, rfl⟩ := ih
        simp
  · rintro ⟨rfl, rfl⟩
    induction tokens generalizing found with
    | nil => simpa using Generates.done
    | cons token tokens ih =>
        rw [List.flatMap_cons, ← List.append_assoc]
        exact .next (steps_final c token .rule found) ih

end Compiler

namespace Sheet

variable {c : Compiler} {tokens tokens' : List String} {documents : List (String × String)}

/-- The rules of tokens, in their order. -/
def rulesOf (c : Compiler) (tokens : List String) : List String :=
  tokens.filterMap fun t => (c.compile t .rule).css

theorem ofTokens_eq (c : Compiler) (tokens : List String) : ofTokens c tokens =
    ⟨"\n".intercalate (rulesOf c tokens), tokens.flatMap fun t => (c.compile t .rule).diagnostics,
      tokens.length, (rulesOf c tokens).length⟩ := by
  simp [ofTokens, rulesOf, List.filterMap_map, List.flatMap_map]

theorem compiled_ofTokens : (ofTokens c tokens).compiled = (rulesOf c tokens).length := by
  rw [ofTokens_eq]

theorem rulesOf_prefix (h : tokens <+: tokens') : rulesOf c tokens <+: rulesOf c tokens' := by
  obtain ⟨rest, rfl⟩ := h
  rw [rulesOf, rulesOf, List.filterMap_append]
  exact List.prefix_append _ _

theorem diagnostics_prefix (h : tokens <+: tokens') :
    (ofTokens c tokens).diagnostics <+: (ofTokens c tokens').diagnostics := by
  obtain ⟨rest, rfl⟩ := h
  rw [ofTokens_eq, ofTokens_eq, List.flatMap_append]
  exact List.prefix_append _ _

theorem rulesOf_perm (h : tokens.Perm tokens') : (rulesOf c tokens).Perm (rulesOf c tokens') :=
  h.filterMap _

theorem map_snd_numbered (texts : List String) : (numbered texts).map Prod.snd = texts := by
  simp [numbered, Function.comp_def]

/-- The names of the sources do not show in a stylesheet. -/
theorem ofIndex_ofDocuments (c : Compiler) (documents : List (String × String)) :
    ofIndex c (.ofDocuments c documents) =
      ofTokens c ((documents.map Prod.snd).flatMap c.candidates).eraseDups := by
  rw [ofIndex, ClassIndex.tokens_ofDocuments]

theorem ofDocuments_map_snd (c : Compiler) (documents : List (String × String)) :
    ofDocuments c (documents.map Prod.snd) = ofIndex c (.ofDocuments c documents) := by
  rw [ofDocuments, ofIndex_ofDocuments, ofIndex_ofDocuments, map_snd_numbered]

theorem tokens_prefix (c : Compiler) (documents more : List (String × String)) :
    (ClassIndex.ofDocuments c documents).tokens <+:
      (ClassIndex.ofDocuments c (documents ++ more)).tokens := by
  rw [ClassIndex.tokens_ofDocuments, ClassIndex.tokens_ofDocuments, List.map_append,
    List.flatMap_append]
  exact eraseDups_prefix

theorem ofIndex_append_of_mem {d : String × String} (h : d.2 ∈ documents.map Prod.snd) :
    ofIndex c (.ofDocuments c (documents ++ [d])) = ofIndex c (.ofDocuments c documents) := by
  have hold : c.candidates d.2 ⊆ (documents.map Prod.snd).flatMap c.candidates :=
    fun t ht => List.mem_flatMap.2 ⟨d.2, h, ht⟩
  rw [ofIndex_ofDocuments, ofIndex_ofDocuments, List.map_append, List.flatMap_append,
    List.map_singleton, List.flatMap_singleton, eraseDups_append_of_subset hold]

/-- Documents in another order have the same tokens in another order. -/
theorem tokens_perm {documents' : List (String × String)}
    (h : (documents'.map Prod.snd).Perm (documents.map Prod.snd)) :
    (ClassIndex.ofDocuments c documents').tokens.Perm (ClassIndex.ofDocuments c documents).tokens := by
  rw [List.perm_ext_iff_of_nodup (ClassIndex.nodup_tokens _) (ClassIndex.nodup_tokens _)]
  intro t
  rw [ClassIndex.tokens_ofDocuments, ClassIndex.tokens_ofDocuments, List.mem_eraseDups,
    List.mem_eraseDups]
  exact (h.flatMap_right c.candidates).mem_iff

end Sheet

/-- **Tokens by first occurrence.**  The index of documents holds their candidates in the order of
first occurrence, each with the number of its occurrences and the sources of the documents that hold
it.  The stylesheet has the rules and the diagnostics of these tokens compiled one after the other,
which are those of each token alone.  Documents behind the others only add rules at the end; a text
that was there before adds nothing; and in another order the documents give the same rules in
another order. -/
theorem tokens_by_first_occurrence (c : Compiler) (documents : List (String × String)) :
    let uses := (documents.map Prod.snd).flatMap c.candidates
    let index := ClassIndex.ofDocuments c documents
    let sheet := Sheet.ofIndex c index
    index.tokens = uses.eraseDups ∧
    index.uses.entries = uses.eraseDups.map (fun t => (t, ⟨uses.count t,
      ((documents.filter fun d => t ∈ c.candidates d.2).map Prod.fst).eraseDups⟩)) ∧
    (∀ results found, c.Generates index.tokens [] results found ↔
      results = index.tokens.map (fun t => (c.compile t .rule).css) ∧
      found = index.tokens.flatMap fun t => (c.compile t .rule).diagnostics) ∧
    (∀ results found, c.Generates index.tokens [] results found →
      sheet = ⟨"\n".intercalate (results.filterMap id), found, index.tokens.length,
        (results.filterMap id).length⟩) ∧
    Sheet.ofDocuments c (documents.map Prod.snd) = sheet ∧
    (∀ more, let longer := ClassIndex.ofDocuments c (documents ++ more)
      Sheet.rulesOf c index.tokens <+: Sheet.rulesOf c longer.tokens ∧
      sheet.diagnostics <+: (Sheet.ofIndex c longer).diagnostics) ∧
    (∀ d, d.2 ∈ documents.map Prod.snd →
      Sheet.ofIndex c (.ofDocuments c (documents ++ [d])) = sheet) ∧
    ∀ documents', (documents'.map Prod.snd).Perm (documents.map Prod.snd) →
      let index' := ClassIndex.ofDocuments c documents'
      (Sheet.rulesOf c index'.tokens).Perm (Sheet.rulesOf c index.tokens) ∧
      (Sheet.ofIndex c index').tokens = sheet.tokens ∧
      (Sheet.ofIndex c index').compiled = sheet.compiled := by
  intro uses index sheet
  refine ⟨ClassIndex.tokens_ofDocuments c documents, ?_, fun results found => ?_,
    fun results found h => ?_, Sheet.ofDocuments_map_snd c documents, fun more => ?_,
    fun d => Sheet.ofIndex_append_of_mem, fun documents' h => ?_⟩
  · show (ClassIndex.ofDocuments c documents).uses.entries = _
    rw [ClassIndex.ofDocuments_eq, ClassIndex.entries_ofUses, ClassIndex.map_fst_usesIn]
    simp only [ClassIndex.useOf_usesIn]
    rfl
  · rw [Compiler.generates_iff, List.nil_append]
  · obtain ⟨rfl, rfl⟩ := Compiler.generates_iff.1 h
    show Sheet.ofTokens c index.tokens = _
    rw [Sheet.ofTokens_eq, List.filterMap_map]
    rfl
  · have hprefix := Sheet.tokens_prefix c documents more
    exact ⟨Sheet.rulesOf_prefix hprefix, Sheet.diagnostics_prefix hprefix⟩
  · have hperm := Sheet.tokens_perm (c := c) h
    have hrules := Sheet.rulesOf_perm (c := c) hperm
    exact ⟨hrules, hperm.length_eq, Sheet.compiled_ofTokens.trans
      (hrules.length_eq.trans Sheet.compiled_ofTokens.symm)⟩

/-- Two documents of which the second repeats tokens of the first. -/
def repetitive : List (String × String) :=
  [("a.html", "<p class='flex foo p-[4px] flex'>"), ("b.html", "<p class='p-[4px] block flex'>")]

theorem tokens_by_first_occurrence_repetitive :
    (ClassIndex.ofDocuments .default repetitive).uses.entries =
      [("flex", ⟨3, ["a.html", "b.html"]⟩), ("p-[4px]", ⟨2, ["a.html", "b.html"]⟩),
        ("block", ⟨1, ["b.html"]⟩)] ∧
    Sheet.ofIndex .default (.ofDocuments .default
      (repetitive ++ [("c.html", "<p class='p-[4px] block flex'>")])) =
        Sheet.ofIndex .default (.ofDocuments .default repetitive) ∧
    (Sheet.ofIndex .default (.ofDocuments .default repetitive)).css =
      "\n".intercalate (Sheet.rulesOf .default ["flex", "p-[4px]", "block"]) ∧
    (Sheet.rulesOf .default (ClassIndex.ofDocuments .default repetitive.reverse).tokens).Perm
      (Sheet.rulesOf .default (ClassIndex.ofDocuments .default repetitive).tokens) := by
  obtain ⟨htokens, hentries, hruns, hsheet, -, -, hagain, hperm⟩ :=
    tokens_by_first_occurrence .default repetitive
  have hcss := congrArg Sheet.css (hsheet _ _ ((hruns _ _).2 ⟨rfl, rfl⟩))
  have htokens' : (ClassIndex.ofDocuments .default repetitive).tokens =
      ["flex", "p-[4px]", "block"] := htokens.trans (by decide +kernel)
  refine ⟨hentries.trans (by decide +kernel), hagain _ (by decide +kernel), ?_,
    (hperm _ (by decide +kernel)).1⟩
  rw [hcss, htokens']
  decide +kernel

end UtilityCss
