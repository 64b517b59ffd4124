import GraphSchema.Proofs.Scan.Recorded

/-!
# Scans of documents

When some declarations of a document have been scanned, the catalogs hold the registry of these, the
jobs that were queued are those of what is kept of them, and the problems that were recorded are
those that their reading is reported with (`Scanner.Tracks`).  Each turn keeps that
(`Scan.documentTurn_tracks`), so it holds of whole documents, too (`Scan.document_agrees`).
-/

namespace GraphSchema

/-! ### Places of names -/

namespace TypeTable

variable {table : TypeTable}

theorem named?_declaring (name : Token) (body : TypeBody) (sought : String) :
    (table.declaring name body).named? sought = (table.named? sought).or
      (if name.text = sought then some (.declared ⟨table.nextId, name.text, name.start, body⟩)
      else none) := by
  rw [named?, declaring, types_append, List.find?_append, ← named?, List.find?_singleton]
  congr 1
  by_cases hname : name.text = sought <;>
    simp [SchemaType.isAnonymous, SchemaType.designation, hname]

/-- The name of a primitive type is taken from the beginning. -/
theorem Consistent.named?_primitive (h : table.Consistent) {name : String} {primitive : Primitive}
    (named : Primitive.ofName? name = some primitive) :
    table.named? name = some (.primitive primitive) := by
  have hname : primitive.name = name := by simpa using List.find?_some named
  exact h.named?_eq_some_iff.mpr ⟨mem_named.mpr ⟨primitive_mem_types primitive, rfl⟩, hname⟩

end TypeTable

namespace Registry

variable {registry : Registry}

/-- A declaration of a type adds it under its name, if that is new. -/
theorem types_add {declaration : Declaration} {name : Token}
    (named : declaration.typeName? = some name) (new : registry.types.named? name.text = none) :
    ∃ body, (registry.add declaration).types = registry.types.declaring name body := by
  cases declaration with
  | typeAlias keyword token equals target =>
    obtain rfl := Option.some.inj named
    rw [add_alias_eq new]
    exact ⟨_, rfl⟩
  | block keyword token opening body closing =>
    obtain rfl := Option.some.inj named
    exact ⟨_, (add_block_of_new keyword opening closing body new).1⟩
  | endpoint kind keyword signature => cases named

theorem types_add_of_none {declaration : Declaration} (unnamed : declaration.typeName? = none) :
    (registry.add declaration).types = registry.types := by
  cases declaration with
  | typeAlias keyword token equals target => cases unnamed
  | block keyword token opening body closing => cases unnamed
  | endpoint kind keyword signature =>
    cases htaken : registry.endpoint? signature.name.text with
    | some node => rw [add_of_isSome_endpoint? rfl (Option.isSome_of_eq_some htaken)]
    | none =>
      rw [add_endpoint_of_new keyword htaken]
      rfl

/-- Members of types are no endpoints. -/
theorem rootNames_addNodes {kind : NodeKind} (member : kind.isEndpoint = false) (owner : String)
    (drafts : List NodeDraft) (registry : Registry) :
    (drafts.foldl (addNode owner kind) registry).graphCatalog.rootNames =
      registry.graphCatalog.rootNames := by
  induction drafts generalizing registry with
  | nil => rfl
  | cons draft drafts ih =>
    rw [List.foldl_cons, ih, graphCatalog_addNode_eq, member]
    exact List.append_nil _

theorem rootNames_add_of_type {declaration : Declaration} {name : Token}
    (named : declaration.typeName? = some name) :
    (registry.add declaration).graphCatalog.rootNames = registry.graphCatalog.rootNames := by
  by_cases hrefused : registry.Refuses declaration
  · rw [add_of_refuses hrefused]
  cases declaration with
  | typeAlias keyword token equals target =>
    rw [add_alias_eq (not_refuses_alias_iff.mp hrefused)]
    rfl
  | block keyword token opening body closing =>
    obtain ⟨-, hnodes, hparameters⟩ := add_block_of_new keyword opening closing body
      (not_refuses_block_iff.mp hrefused)
    have hkind : (body.nodeKind registry.types.nextId).isEndpoint = false := by
      cases body <;> rfl
    rw [graphCatalog_congr hnodes hparameters]
    exact rootNames_addNodes hkind _ _ _
  | endpoint kind keyword signature => cases named

/-- A name that is not primitive has the place of the first declaration with it. -/
theorem named?_place (declarations : List Declaration) {sought : String}
    (plain : Primitive.ofName? sought = none) :
    ((ofDeclarations declarations).types.named? sought).map SchemaType.position? =
      ((declarations.filterMap Declaration.typeName?).find? fun name => name.text = sought).map
        fun first => some first.start := by
  induction declarations using List.reverseRecOn with
  | nil =>
    have hnone : empty.types.named? sought = none :=
      records_empty.named?_eq_none plain List.not_mem_nil
    rw [ofDeclarations, List.foldl_nil, hnone]
    rfl
  | append_singleton declarations declaration ih =>
    rw [ofDeclarations_concat, List.filterMap_append, List.find?_append]
    cases hname : declaration.typeName? with
    | none =>
      rw [types_add_of_none hname, ih, List.filterMap_cons_none hname, List.filterMap_nil,
        List.find?_nil, Option.or_none]
    | some name =>
      rw [List.filterMap_cons_some hname, List.filterMap_nil, List.find?_singleton]
      cases htaken : (ofDeclarations declarations).types.named? name.text with
      | some type =>
        rw [add_of_isSome_named? hname (Option.isSome_of_eq_some htaken), ih]
        by_cases hsought : name.text = sought
        · -- the name was found before
          rw [hsought] at htaken
          rw [htaken] at ih
          obtain ⟨first, hfirst, -⟩ := Option.map_eq_some_iff.mp ih.symm
          rw [hfirst, Option.some_or]
        · rw [if_neg (by simpa using hsought), Option.or_none]
      | none =>
        obtain ⟨body, htypes⟩ := types_add hname htaken
        rw [htypes, TypeTable.named?_declaring, Option.map_or, ih, Option.map_or]
        by_cases hsought : name.text = sought <;> simp [hsought, SchemaType.position?]

/-- An endpoint has the place of the first declaration with its name. -/
theorem rootNames_claims (declarations : List Declaration) :
    NameScope.Claims (ofDeclarations declarations).graphCatalog.rootNames Token.text Token.start
      (declarations.filterMap Declaration.endpointName?) := by
  induction declarations using List.reverseRecOn with
  | nil => exact NameScope.claims_nil
  | append_singleton declarations declaration ih =>
    rw [ofDeclarations_concat, List.filterMap_append]
    cases declaration with
    | typeAlias keyword name equals target =>
      rw [rootNames_add_of_type rfl]
      show NameScope.Claims _ _ _ (_ ++ [])
      rw [List.append_nil]
      exact ih
    | block keyword name opening body closing =>
      rw [rootNames_add_of_type rfl]
      show NameScope.Claims _ _ _ (_ ++ [])
      rw [List.append_nil]
      exact ih
    | endpoint kind keyword signature =>
      show NameScope.Claims _ _ _ (_ ++ [signature.name])
      cases htaken : (ofDeclarations declarations).endpoint? signature.name.text with
      | some node =>
        rw [add_of_isSome_endpoint? rfl (Option.isSome_of_eq_some htaken)]
        have hlookup := ih signature.name.text
        rw [lookup_rootNames, htaken] at hlookup
        obtain ⟨first, hfirst, -⟩ := Option.map_eq_some_iff.mp hlookup.symm
        exact ih.again hfirst
      | none =>
        have hendpoint : kind.nodeKind.isEndpoint = true := by
          cases kind <;> rfl
        rw [add_endpoint_of_new keyword htaken, graphCatalog_addNode_eq, hendpoint, if_pos rfl]
        refine ih.new ?_
        rw [lookup_rootNames]
        exact Option.map_eq_none_iff.mpr htaken

/-! ### Problems -/

/-- A name that is not primitive is refused with the place of its first declaration. -/
theorem typeRefusal?_eq (declarations : List Declaration) {name : Token}
    (plain : Primitive.ofName? name.text = none) :
    (ofDeclarations declarations).typeRefusal? name =
      ((declarations.filterMap Declaration.typeName?).find? fun earlier =>
        earlier.text = name.text).map fun first =>
          .typeRedeclared name.text name.start (some first.start) := by
  have hplace := congrArg (Option.map (Problem.typeRedeclared name.text name.start))
    (named?_place declarations plain)
  rwa [Option.map_map, Option.map_map] at hplace

/-- The endpoint that has a name was declared under it first. -/
theorem endpointRefusal?_eq (declarations : List Declaration) (name : Token) :
    (ofDeclarations declarations).endpointRefusal? name =
      ((declarations.filterMap Declaration.endpointName?).find? fun earlier =>
        earlier.text = name.text).map fun first =>
          .endpointRedeclared name.text name.start first.start := by
  have hplace := congrArg (Option.map (Problem.endpointRedeclared name.text name.start))
    (rootNames_claims declarations name.text)
  rwa [lookup_rootNames, Option.map_map, Option.map_map] at hplace

/-- One type name more is a problem if it is taken. -/
theorem typeProblems_concat (declarations : List Declaration) (name : Token) :
    (DeclaredNames.typeProblems (declarations.filterMap Declaration.typeName? ++ [name])).Perm
      (DeclaredNames.typeProblems (declarations.filterMap Declaration.typeName?) ++
        ((ofDeclarations declarations).typeRefusal? name).toList) := by
  unfold DeclaredNames.typeProblems
  simp only [List.partition_eq_filter_filter, List.filter_append]
  cases hprimitive : Primitive.ofName? name.text with
  | some primitive =>
    rw [typeRefusal?,
      (consistent_ofDeclarations declarations).types.named?_primitive hprimitive]
    simp only [List.filter_cons, List.filter_nil, hprimitive, Function.comp_apply,
      Option.isSome_some, Bool.not_true, if_true, Bool.false_eq_true, if_false, List.append_nil]
    rw [List.map_append, List.append_assoc, List.append_assoc]
    exact List.Perm.append_left _ List.perm_append_comm
  | none =>
    -- the first declaration of that name is the one that is repeated
    have hfirst : ((declarations.filterMap Declaration.typeName?).filter
        (not ∘ fun name => (Primitive.ofName? name.text).isSome)).find?
          (fun earlier => earlier.text = name.text) =
        (declarations.filterMap Declaration.typeName?).find?
          fun earlier => earlier.text = name.text := by
      rw [List.find?_filter]
      congr 1
      funext earlier
      by_cases hsame : earlier.text = name.text <;> simp [hsame, hprimitive]
    simp only [List.filter_cons, List.filter_nil, hprimitive, Function.comp_apply,
      Option.isSome_none, Bool.false_eq_true, if_false, Bool.not_false, if_true, List.append_nil]
    rw [repeats_concat, List.map_append, hfirst, typeRefusal?_eq declarations hprimitive,
      List.append_assoc]
    refine List.Perm.of_eq (congrArg _ (congrArg _ ?_))
    cases (declarations.filterMap Declaration.typeName?).find? fun earlier =>
      earlier.text = name.text <;> rfl

/-- One endpoint name more is a problem if it is taken. -/
theorem endpointProblems_concat (declarations : List Declaration) (name : Token) :
    DeclaredNames.endpointProblems (declarations.filterMap Declaration.endpointName? ++ [name]) =
      DeclaredNames.endpointProblems (declarations.filterMap Declaration.endpointName?) ++
        ((ofDeclarations declarations).endpointRefusal? name).toList := by
  rw [endpointRefusal?_eq]
  exact repetitions_concat Token.text Token.start
    (fun name => .endpointRedeclared name.text name.start) _ name

/-- The name of one declaration more is a problem if it is taken. -/
theorem refusals_concat (declarations : List Declaration) (names : DeclaredNames) :
    (DeclaredNames.typeProblems
        (declarations.filterMap Declaration.typeName? ++ names.typeName?.toList) ++
      DeclaredNames.endpointProblems
        (declarations.filterMap Declaration.endpointName? ++ names.endpointName?.toList)).Perm
      (DeclaredNames.typeProblems (declarations.filterMap Declaration.typeName?) ++
        DeclaredNames.endpointProblems (declarations.filterMap Declaration.endpointName?) ++
          ((ofDeclarations declarations).refusal? names).toList) := by
  have htype (name : Token) : (DeclaredNames.typeProblems
        (declarations.filterMap Declaration.typeName? ++ [name]) ++
      DeclaredNames.endpointProblems
        (declarations.filterMap Declaration.endpointName? ++ [])).Perm
      (DeclaredNames.typeProblems (declarations.filterMap Declaration.typeName?) ++
        DeclaredNames.endpointProblems (declarations.filterMap Declaration.endpointName?) ++
          ((ofDeclarations declarations).typeRefusal? name).toList) := by
    rw [List.append_nil]
    refine ((typeProblems_concat declarations name).append_right _).trans ?_
    rw [List.append_assoc, List.append_assoc]
    exact List.Perm.append_left _ List.perm_append_comm
  cases names with
  | nothing =>
    show (DeclaredNames.typeProblems (_ ++ []) ++ DeclaredNames.endpointProblems (_ ++ [])).Perm
      (_ ++ [])
    rw [List.append_nil, List.append_nil, List.append_nil]
  | typeAlias name | enum name | union name | struct name | resolver name => exact htype name
  | endpoint name =>
    show (DeclaredNames.typeProblems (_ ++ []) ++
      DeclaredNames.endpointProblems (_ ++ [name])).Perm _
    rw [List.append_nil, endpointProblems_concat, ← List.append_assoc]
    exact List.Perm.refl _

/-- The names of one declaration more add the problems with them, whether all of them have been read
or not. -/
theorem problems_names (declarations : List Declaration) (names : DeclaredNames) :
    (DeclaredNames.problems (declarations.map Declaration.names ++ [names])).Perm
      (DeclaredNames.problems (declarations.map Declaration.names) ++
        (ofDeclarations declarations).nameProblems names) := by
  have htypes : (declarations.map Declaration.names ++ [names]).filterMap
      DeclaredNames.typeName? =
        declarations.filterMap Declaration.typeName? ++ names.typeName?.toList := by
    rw [List.filterMap_append, Document.typeNames_eq]
    cases names <;> rfl
  have hendpoints : (declarations.map Declaration.names ++ [names]).filterMap
      DeclaredNames.endpointName? =
        declarations.filterMap Declaration.endpointName? ++ names.endpointName?.toList := by
    rw [List.filterMap_append, Document.endpointNames_eq]
    cases names <;> rfl
  rw [DeclaredNames.problems, htypes, hendpoints, List.flatMap_append, List.flatMap_singleton,
    DeclaredNames.problems, Document.typeNames_eq, Document.endpointNames_eq, nameProblems]
  refine ((refusals_concat declarations names).append_right _).trans ?_
  rw [List.perm_iff_count]
  intro problem
  simp only [List.count_append]
  omega

/-- A declaration adds to the problems of a reading what a scan of it records. -/
theorem problems_concat (header : Header) (declarations : List Declaration)
    (declaration : Declaration) :
    (Reading.body header (declarations ++ [declaration]) none).problems.Perm
      ((Reading.body header declarations none).problems ++
        (ofDeclarations declarations).newProblems declaration) := by
  rw [Reading.problems, Reading.names_body, Reading.problems, Reading.names_body, List.map_append,
    newProblems]
  show (DeclaredNames.problems (_ ++ [declaration.names]) ++
    (declarations ++ [declaration]).flatMap Declaration.shortages).Perm
      ((_ ++ declarations.flatMap Declaration.shortages) ++ _)
  rw [List.flatMap_append, List.flatMap_singleton]
  refine ((problems_names declarations declaration.names).append_right _).trans ?_
  rw [List.perm_iff_count]
  intro problem
  simp only [List.count_append]
  omega

/-- A declaration adds the jobs of what is kept of it, and none if it is refused. -/
theorem jobs_concat (header : Header) (declarations : List Declaration)
    (declaration : Declaration) :
    (Reading.body header (declarations ++ [declaration]) none).jobs =
      (Reading.body header declarations none).jobs ++
        if (ofDeclarations declarations).Refuses declaration then []
        else declaration.kept.jobs := by
  show (Document.kept (declarations ++ [declaration])).flatMap Declaration.jobs ++ [] =
    ((Document.kept declarations).flatMap Declaration.jobs ++ []) ++ _
  rw [List.append_nil, List.append_nil, Document.kept_concat, List.flatMap_append]
  by_cases hnew : declaration.IsNewAfter declarations
  · have hfree : ¬ (ofDeclarations declarations).Refuses declaration :=
      fun hrefused => refuses_ofDeclarations_iff.mp hrefused hnew
    rw [if_pos hnew, if_neg hfree, List.flatMap_singleton]
  · rw [if_neg hnew, if_pos (refuses_ofDeclarations_iff.mpr hnew), List.flatMap_nil]

/-- A declaration that is still open adds the problems with the names that it has introduced. -/
theorem problems_pending (header : Header) (declarations : List Declaration)
    (opened : OpenDeclaration) :
    (Reading.body header declarations (some opened)).problems.Perm
      ((Reading.body header declarations none).problems ++
        (ofDeclarations declarations).nameProblems opened.names) := by
  rw [Reading.problems, Reading.problems, Reading.names_body]
  show (DeclaredNames.problems (declarations.map Declaration.names ++ [opened.names]) ++
    declarations.flatMap Declaration.shortages).Perm
      ((_ ++ declarations.flatMap Declaration.shortages) ++ _)
  refine ((problems_names declarations opened.names).append_right _).trans ?_
  rw [List.append_assoc, List.append_assoc]
  exact List.Perm.append_left _ List.perm_append_comm

end Registry

/-! ### Documents -/

/-- Some declarations of a document have been scanned. -/
structure Scanner.Tracks (scanner : Scanner) (header : Header) (declarations : List Declaration) :
    Prop where
  types : scanner.types = (Registry.ofDeclarations declarations).types.catalog
  graph : scanner.graph = (Registry.ofDeclarations declarations).graphCatalog
  jobs : List.Forall₂ (Registry.ofDeclarations declarations).Queues scanner.jobs
    (Reading.body header declarations none).jobs
  problems : scanner.problems.Perm (Reading.body header declarations none).problems

namespace Scanner

variable {header : Header} {declarations : List Declaration} {scanner : Scanner}

/-- No declaration has been scanned at the beginning. -/
theorem tracks_start (lexer : Lexer) (header : Header) : (start lexer).Tracks header [] where
  types := TypeTable.catalog_empty.symm
  graph := Registry.graphCatalog_empty.symm
  jobs := .nil
  problems := .nil

theorem Tracks.read (h : scanner.Tracks header declarations) (rest : Lexer) :
    Tracks { scanner with lexer := rest } header declarations :=
  ⟨h.types, h.graph, h.jobs, h.problems⟩

theorem Tracks.stands (h : scanner.Tracks header declarations) :
    Scan.Stands (Registry.ofDeclarations declarations) scanner :=
  ⟨Registry.consistent_ofDeclarations declarations, h.types, h.graph⟩

end Scanner

namespace Scan

variable {header : Header} {declarations : List Declaration} {scanner : Scanner}

/-- A declaration that is read keeps track, be it refused or not. -/
theorem declaration_tracks (h : scanner.Tracks header declarations) (token : Token) :
    (declaration token).Gives scanner fun declaration after =>
      after.Tracks header (declarations ++ [declaration]) := by
  refine ((declaration_gives token h.stands).and (declaration_records token h.stands)).mono
    ?_ fun _ _ => id
  rintro declaration after ⟨hadds, hproblems⟩
  refine ⟨?_, ?_, ?_, ?_⟩
  · rw [Registry.ofDeclarations_concat, hadds.types]
  · rw [Registry.ofDeclarations_concat, hadds.graph]
  · rw [hadds.jobs, Registry.jobs_concat, Registry.ofDeclarations_concat]
    refine List.rel_append ?_ (Registry.queues_newJobs _ declaration)
    exact h.jobs.imp fun _ _ hqueues => hqueues.mono (Registry.growsTo_add _ declaration)
  · refine hproblems.trans (List.Perm.trans ?_
      (Registry.problems_concat header declarations declaration).symm)
    exact h.problems.append_right _

/-- Every turn of a scan keeps track of the declarations that have been read. -/
theorem documentTurn_tracks (h : scanner.Tracks header declarations) :
    (documentTurn declarations).Gives scanner (Turned
      (fun next after => after.Tracks header next)
      fun next after => after.Tracks header next) := by
  refine gives_asks_bind fun token? rest => ?_
  cases token? with
  | none => exact leads_pure (h.read rest)
  | some token =>
    exact (declaration_tracks (h.read rest) token).bind fun _ _ hnext => leads_pure hnext

/-- A whole document is scanned as it is read, with what its registry holds, the jobs of what is
kept of it, and the problems of its reading. -/
theorem document_agrees {lexer rest : Lexer} {read : Document}
    (h : Rule.document lexer = some (.ok read, rest)) : ∃ after,
      document (Scanner.start lexer) = some (.ok read, after) ∧ after.lexer = rest ∧
        after.Tracks read.header read.declarations := by
  obtain ⟨found, after, hscan, hfound, hrest⟩ := document_reads.exists_of_ok (Scanner.start lexer) h
  obtain rfl : found = read := hfound
  have htracks : document.Gives (Scanner.start lexer) fun found after =>
      after.Tracks found.header found.declarations := by
    refine gives_asks_bind fun header opened => ?_
    have hloop := leads_loop (fun declarations now => now.Tracks header declarations)
      (fun _ _ hnow => documentTurn_tracks hnow) ((Scanner.tracks_start lexer header).read opened)
    exact hloop.bind fun _ _ hafter => leads_pure hafter
  exact ⟨after, hscan, hrest, htracks _ _ hscan⟩

end Scan

end GraphSchema
