import Surveyor.Inspection.Cataloguing
import Surveyor.Proofs.Catalog.TreeLines
import Surveyor.Proofs.Number.Whole

/-! # The inventories of a catalogue agree

A catalogue shows its files four times over: as records, by extension, by folder, and as lines of the
rendered tree, where the assets of a folder share a line. Each of them accounts for every file once
(`Catalog.inventories_agree`): the tables sort the records into groups (`sumOf_groups`), and the tree
goes through the folders place by place.
-/

namespace Surveyor

/-- The directory at the names, below a place, holds an asset that is catalogued. -/
def HoldsAsset (tree : FileTree) (place excluded names : List String) : Prop :=
  ∃ name, IsVisible excluded (names ++ [name])
    ∧ (tree.fileAt? (place ++ (names ++ [name]))).isSome = true
    ∧ isMinified name = false ∧ isListed (extensionOf name) = false

namespace Catalog

def assetsIn (catalog : Catalog) (names : List String) : Nat :=
  catalog.files.countP fun r => r.path == pathOf (names ++ [r.name]) && !isListed r.extension

/-- The tables account for all records. -/
structure TablesAgree (catalog : Catalog) : Prop where
  extensions : sumOf (·.2) catalog.byExtension = catalog.files.length
  folderFiles : sumOf (·.files) catalog.folderStats = catalog.files.length
  folderLines : sumOf (·.lines) catalog.folderStats = catalog.totalLines
  folderSizes : sumOf (·.size) catalog.folderStats = sumOf (·.size) catalog.files

/-- The lines account for all files and folders, and each folder with assets has one line for them. -/
structure LinesAgree (catalog : Catalog) (tree : FileTree) (place excluded : List String)
    (lines : List TreeLine) : Prop where
  folders : lines.count .folder = catalog.totalFolders
  files : lines.count .file + (lines.filterMap TreeLine.count?).sum = catalog.files.length
  assets : ∃ holders : List (List String), holders.Nodup
    ∧ (∀ names, names ∈ holders ↔ HoldsAsset tree place excluded names)
    ∧ (lines.filterMap TreeLine.count?).Perm (holders.map catalog.assetsIn)

/-- Every record is announced once, with numbers that count up from one. -/
structure VisitsAgree (catalog : Catalog) : Prop where
  visited : catalog.visited.Perm catalog.files
  steps : ∀ interval, Cataloguing.visitSteps interval (catalog.visited.map (·.path)) =
    ((catalog.visited.zip (List.range' 1 catalog.files.length)).filter fun visit =>
        (visit.2 : Int) % max interval 1 == 0).map fun visit =>
      .report (.ofNat visit.2) .null (.str visit.1.path) (.str Cataloguing.phase)

end Catalog

/-! ## Groups -/

theorem sumOf_eq_of_perm {α : Type} (measure : α → Nat) {items others : List α}
    (reordered : items.Perm others) : sumOf measure items = sumOf measure others := by
  rw [sumOf_eq_sum, sumOf_eq_sum]
  exact (reordered.map measure).sum_eq

/-- A measure of items is the same taken group by group. -/
theorem sumOf_groups {α : Type} (measure : α → Nat) (label : α → String) (items : List α) :
    sumOf (fun group => sumOf measure (items.filter fun item => label item == group))
      (Text.distinctSorted (items.map label)) = sumOf measure items := by
  -- The groups stay as they are while the items are taken one by one.
  have overGroups : ∀ groups : List String, groups.Nodup → (∀ item ∈ items, label item ∈ groups) →
      sumOf (fun group => sumOf measure (items.filter fun item => label item == group)) groups
        = sumOf measure items := by
    intro groups once covered
    induction items with
    | nil => simp [sumOf_eq_sum]
    | cons item rest inductionHypothesis =>
      obtain ⟨here, later⟩ := List.forall_mem_cons.mp covered
      have step : ∀ group, sumOf measure ((item :: rest).filter fun item => label item == group)
          = (if group = label item then measure item else 0)
            + sumOf measure (rest.filter fun item => label item == group) := by
        intro group
        by_cases isLabel : label item = group
        · simp [isLabel]
        · simp [isLabel, Ne.symm isLabel]
      -- The item counts in one group only.
      have ofItem : (groups.map fun group => if group = label item then measure item else 0).sum
          = measure item := by
        rw [List.sum_map_eq_nsmul_single (label item) _ fun other different _ => if_neg different,
          List.count_eq_one_of_mem once here, if_pos rfl, one_nsmul]
      rw [sumOf_cons, ← inductionHypothesis later, sumOf_eq_sum, sumOf_eq_sum, ← ofItem,
        ← List.sum_map_add]
      simp only [step]
  refine overGroups _ (Text.nodup_distinctSorted _) ?_
  exact fun item member => Text.mem_distinctSorted.mpr (List.mem_map_of_mem member)

theorem Catalog.tablesAgree (catalog : Catalog) : catalog.TablesAgree := by
  have ones : ∀ records : List FileRecord, sumOf (fun _ => 1) records = records.length := by
    intro records
    simp [sumOf_eq_sum]
  -- One argument for the three columns of the table of folders.
  have ofStats : ∀ (measure : FolderStats → Nat) (ofRecord : FileRecord → Nat),
      (∀ folder own, measure ⟨folder, own.length, sumOf (·.lines) own, sumOf (·.size) own⟩
        = sumOf ofRecord own) →
      sumOf measure catalog.folderStats = sumOf ofRecord catalog.files := by
    intro measure ofRecord same
    rw [folderStats, sumOf_eq_of_perm _ (List.mergeSort_perm _ _), sumOf_eq_sum, List.map_map,
      ← sumOf_groups ofRecord (fun r => Text.folderName r.path), sumOf_eq_sum]
    simp only [Function.comp_def, same]
  refine ⟨?_, ?_, ofStats _ _ fun _ _ => rfl, ofStats _ _ fun _ _ => rfl⟩
  · rw [byExtension, sumOf_eq_sum, List.map_map, ← ones, ← sumOf_groups _ extensionLabel,
      sumOf_eq_sum]
    simp only [ones, Function.comp_def, List.countP_eq_length_filter]
  · rw [ofStats _ (fun _ => 1) fun _ own => (ones own).symm, ones]

theorem Catalog.visitsAgree {catalog : Catalog} (visited : catalog.visited.Perm catalog.files) :
    catalog.VisitsAgree := by
  refine ⟨visited, fun interval => ?_⟩
  rw [Cataloguing.visitSteps, ← visited.length_eq, ← List.zipIdx_eq_zip_range', List.zipIdx_map,
    List.filterMap_map, ← List.filterMap_eq_map, ← List.filterMap_eq_filter, List.filterMap_filterMap]
  refine List.filterMap_congr fun visit _ => ?_
  simp only [Function.comp_apply, Prod.map, id_eq, Option.guard]
  by_cases reported : ((visit.2 : Int) % max interval 1 == 0) = true
  · rw [if_pos reported, if_pos reported, Option.bind_some]
  · rw [if_neg reported, if_neg reported, Option.bind_none]

/-! ## Lines -/

namespace TreeLine

section

variable (folderCount : Nat) (holdings : List (List String × List FileRecord))

theorem count_folder_ofHoldings : (ofHoldings folderCount holdings).count .folder = folderCount := by
  have none_ : ∀ holding : List String × List FileRecord,
      (ofFiles holding.2).count .folder = 0 := by
    intro holding
    simp only [ofFiles]
    split <;> simp [List.count_replicate]
  simp [ofHoldings, List.count_flatMap, Function.comp_def, none_]

theorem count_file_ofHoldings : (ofHoldings folderCount holdings).count .file
    = (holdings.flatMap (·.2)).countP fun r => isListed r.extension := by
  have listed : ∀ holding : List String × List FileRecord,
      (ofFiles holding.2).count .file = holding.2.countP fun r => isListed r.extension := by
    intro holding
    simp only [ofFiles]
    split <;> simp
  simp [ofHoldings, List.count_flatMap, List.countP_flatMap, Function.comp_def, listed,
    List.count_replicate]

theorem count?_ofHoldings : (ofHoldings folderCount holdings).filterMap count?
    = (holdings.filter fun holding => assetCount holding.2 != 0).map (assetCount ·.2) := by
  have noAssets : ∀ (n : Nat) (line : TreeLine), line.count? = none →
      (List.replicate n line).filterMap count? = [] := by
    intro n line isNone
    simp [isNone]
  have ofOwn : ∀ files, (ofFiles files).filterMap count?
      = if assetCount files = 0 then [] else [assetCount files] := by
    intro files
    rw [ofFiles, List.filterMap_append, noAssets _ .file rfl, List.nil_append]
    split <;> rfl
  rw [ofHoldings, List.filterMap_append, noAssets _ .folder rfl, List.nil_append]
  induction holdings with
  | nil => rfl
  | cons holding rest inductionHypothesis =>
    rw [List.flatMap_cons, List.filterMap_append, inductionHypothesis, ofOwn, List.filter_cons]
    split <;> simp_all

theorem sum_count?_ofHoldings : ((ofHoldings folderCount holdings).filterMap count?).sum
    = assetCount (holdings.flatMap (·.2)) := by
  rw [count?_ofHoldings, assetCount, List.countP_flatMap]
  induction holdings with
  | nil => rfl
  | cons holding rest inductionHypothesis =>
    rw [List.filter_cons]
    split <;> simp_all [assetCount]

end

end TreeLine

/-! ## Places -/

theorem sum_map_eq_of_nodup {α β : Type} {items : List (α × β)} (once : (items.map (·.1)).Nodup)
    {item : α × β} (member : item ∈ items) {measure : α × β → Nat}
    (others : ∀ other ∈ items, other.1 ≠ item.1 → measure other = 0) :
    (items.map measure).sum = measure item := by
  obtain ⟨before, after, rfl⟩ := List.append_of_mem member
  -- The key of the item is none of the keys before and after it.
  rw [List.map_append, List.map_cons, List.nodup_middle, List.nodup_cons, ← List.map_append] at once
  have apart : ∀ other ∈ before ++ after, measure other = 0 := by
    intro other inOthers
    refine others other ?_ fun same => once.1 (List.mem_map.mpr ⟨other, inOthers, same⟩)
    rcases List.mem_append.mp inOthers with earlier | later
    · exact List.mem_append_left _ earlier
    · exact List.mem_append_right _ (List.mem_cons_of_mem item later)
  have rest : ((before ++ after).map measure).sum = 0 :=
    List.sum_eq_zero (List.forall_mem_map.mpr apart)
  rw [List.map_append, List.sum_append] at rest
  rw [List.map_append, List.map_cons, List.sum_append, List.sum_cons]
  omega

section

variable {tree : FileTree} {place excluded : List String} {maxFileSize : Int}
  {entries : List (String × FileNode)} {f : Folder} {catalog : Catalog}
  {holding : List String × List FileRecord}
  (named : (FileNode.directory entries).isWellNamed = true)
  (placed : f.IsPlaced (fun names => ∃ node, (names, node) ∈ seenBelow excluded entries) [])

include named placed

omit placed in
theorem isEntryName_of_fileAt? (here : tree.plain? place = some (.directory entries))
    {names : List String} (nonempty : names ≠ []) (visible : IsVisible excluded names)
    {file : ByteArray × Int} (isFile : tree.fileAt? (place ++ names) = some file) :
    ∀ name ∈ names, isEntryName name = true := by
  obtain ⟨node, leads, -⟩ := Option.bind_eq_some_iff.mp isFile
  exact isEntryName_of_mem_seenBelow named
    ((mem_seenBelow_iff named here).mpr ⟨nonempty, leads, visible⟩)

theorem isEntryName_of_mem_holdings (member : holding ∈ f.holdings []) :
    ∀ name ∈ holding.1, isEntryName name = true := by
  obtain ⟨files, isFirst⟩ := f.holdings_eq_cons []
  rw [isFirst] at member
  rcases List.mem_cons.mp member with rfl | below
  · simp
  · obtain ⟨node, isSeen⟩ := placed.shown_of_mem_tail below
    exact isEntryName_of_mem_seenBelow named isSeen

theorem eq_place_of_path (member : holding ∈ f.holdings []) {r : FileRecord} (inFiles : r ∈ holding.2)
    {names : List String} (nonempty : names ≠ []) (allNamed : ∀ name ∈ names, isEntryName name = true)
    (samePath : r.path = pathOf names) : names = holding.1 ++ [r.name] := by
  obtain ⟨⟨node, isSeen⟩, path⟩ := placed.path_of_mem member r inFiles
  exact pathOf_injective nonempty (by simp) allNamed (isEntryName_of_mem_seenBelow named isSeen)
    (samePath.symm.trans path)

theorem assetsIn_eq (files : catalog.files.Perm f.records) (member : holding ∈ f.holdings []) :
    catalog.assetsIn holding.1 = assetCount holding.2 := by
  have own : holding.2.countP (fun r => r.path == pathOf (holding.1 ++ [r.name])
      && !isListed r.extension) = assetCount holding.2 := by
    refine List.countP_congr fun r inFiles => ?_
    simp [(placed.path_of_mem member r inFiles).2]
  have others : ∀ other ∈ f.holdings [], other.1 ≠ holding.1 → other.2.countP (fun r =>
      r.path == pathOf (holding.1 ++ [r.name]) && !isListed r.extension) = 0 := by
    -- A file that stands elsewhere has another path.
    intro other memberOther different
    refine List.countP_eq_zero.mpr fun r inFiles => ?_
    rw [Bool.and_eq_true, beq_iff_eq]
    rintro ⟨samePath, -⟩
    have nameNamed : isEntryName r.name = true := by
      obtain ⟨node, isSeen⟩ := (placed.path_of_mem memberOther r inFiles).1
      exact isEntryName_of_mem_seenBelow named isSeen r.name (by simp)
    have sameNames := eq_place_of_path named placed memberOther inFiles (by simp) (by
      simpa [or_imp, forall_and, nameNamed] using isEntryName_of_mem_holdings named placed member)
      samePath
    exact different (List.append_cancel_right sameNames).symm
  rw [Catalog.assetsIn, files.countP_eq, f.records_eq_flatMap [], List.countP_flatMap]
  exact (sum_map_eq_of_nodup placed.nodup_holdings member others).trans own

theorem exists_holding_iff (here : tree.plain? place = some (.directory entries))
    (records : f.records.Perm (recordsBelow tree place excluded maxFileSize entries))
    {names : List String} :
    (∃ holding ∈ f.holdings [], assetCount holding.2 ≠ 0 ∧ holding.1 = names)
      ↔ HoldsAsset tree place excluded names := by
  constructor
  · rintro ⟨holding, member, some, rfl⟩
    obtain ⟨r, inFiles, isAsset⟩ := List.countP_pos_iff.mp (Nat.pos_of_ne_zero some)
    have inRecords : r ∈ f.records := by
      rw [f.records_eq_flatMap []]
      exact List.mem_flatMap.mpr ⟨holding, member, inFiles⟩
    obtain ⟨names, name, bytes, modified, last, visible, isFile, notMinified, rfl⟩ :=
      (mem_recordsBelow_iff named here).mp (records.mem_iff.mp inRecords)
    obtain ⟨front, rfl⟩ := List.getLast?_eq_some_iff.mp last
    -- A path has one place, so the folder that lists the asset is the one it lies in.
    have sameNames := eq_place_of_path named placed member inFiles (by simp)
      (isEntryName_of_fileAt? named here (by simp) visible isFile) (FileRecord.path_ofFile ..)
    obtain ⟨rfl, -⟩ := List.append_inj' sameNames rfl
    rw [FileRecord.extension_ofFile, Bool.not_eq_true'] at isAsset
    exact ⟨name, visible, by rw [isFile]; rfl, notMinified, isAsset⟩
  · rintro ⟨name, visible, isFile, notMinified, isAsset⟩
    obtain ⟨⟨bytes, modified⟩, isFile⟩ := Option.isSome_iff_exists.mp isFile
    have inRecords := records.mem_iff.mpr ((mem_recordsBelow_iff named here).mpr
      ⟨names ++ [name], name, bytes, modified, List.getLast?_concat, visible, isFile, notMinified, rfl⟩)
    rw [f.records_eq_flatMap []] at inRecords
    obtain ⟨holding, member, inFiles⟩ := List.mem_flatMap.mp inRecords
    have sameNames := eq_place_of_path named placed member inFiles (by simp)
      (isEntryName_of_fileAt? named here (by simp) visible isFile) (FileRecord.path_ofFile ..)
    refine ⟨holding, member, Nat.pos_iff_ne_zero.mp ?_, (List.append_inj' sameNames rfl).1.symm⟩
    exact List.countP_pos_iff.mpr ⟨_, inFiles, by simp [isAsset]⟩

theorem Catalog.linesAgree_of_perm (here : tree.plain? place = some (.directory entries))
    (records : f.records.Perm (recordsBelow tree place excluded maxFileSize entries))
    (files : catalog.files.Perm f.records) (folders : catalog.totalFolders = f.folderCount)
    {lines : List TreeLine} (drawn : lines.Perm (TreeLine.ofHoldings f.folderCount (f.holdings []))) :
    catalog.LinesAgree tree place excluded lines := by
  refine ⟨?_, ?_, ?_⟩
  · rw [drawn.count_eq, TreeLine.count_folder_ofHoldings, folders]
  · -- Listed files have a line each, all others are counted on the lines of assets.
    rw [drawn.count_eq, (drawn.filterMap _).sum_eq, TreeLine.count_file_ofHoldings,
      TreeLine.sum_count?_ofHoldings, ← f.records_eq_flatMap, files.length_eq, assetCount,
      List.length_eq_countP_add_countP fun r => isListed r.extension]
    simp only [Bool.not_eq_true, Bool.decide_eq_false]
  · refine ⟨((f.holdings []).filter fun holding => assetCount holding.2 != 0).map (·.1),
      placed.nodup_holdings.sublist (List.filter_sublist.map _), fun names => ?_, ?_⟩
    · rw [← exists_holding_iff named placed here records]
      simp only [List.mem_map, List.mem_filter, bne_iff_ne, and_assoc]
    · refine (drawn.filterMap _).trans (List.Perm.of_eq ?_)
      rw [TreeLine.count?_ofHoldings, List.map_map]
      exact List.map_congr_left fun holding member =>
        (assetsIn_eq named placed files (List.mem_filter.mp member).1).symm

end

namespace Catalog

/-- No visible entry has a name with a line break in it. -/
def NamesUnbroken (tree : FileTree) (place excluded : List String) : Prop :=
  ∀ names name node, IsVisible excluded (names ++ [name]) →
    tree.plain? (place ++ (names ++ [name])) = some node → '\n' ∉ name.toList

/-- The catalogue accounts for every file once in each of its inventories. As names are drawn as they
are, the text of the tree has the lines that were drawn only if no name breaks a line. -/
structure InventoriesAgree (tree : FileTree) (place excluded : List String) (catalog : Catalog) :
    Prop where
  tables : catalog.TablesAgree
  visits : catalog.VisitsAgree
  lines : catalog.LinesAgree tree place excluded (catalog.tree.filterMap TreeLine.read?)
  text : NamesUnbroken tree place excluded →
    catalog.LinesAgree tree place excluded (TreeLine.readText (Text.join "\n" catalog.tree))

theorem inventoriesAgree_ofDirectory {tree : FileTree} {place excluded : List String}
    {entries : List (String × FileNode)} (named : (FileNode.directory entries).isWellNamed = true)
    (here : tree.plain? place = some (.directory entries)) (maxFileSize : Int) (recent : Float) :
    InventoriesAgree tree place excluded
      (ofDirectory tree (.excluding excluded maxFileSize) recent place entries) := by
  have placed := Folder.isPlaced_ofDirectory named tree place excluded maxFileSize
  have records : (Folder.ofDirectory tree (.excluding excluded maxFileSize) place
      entries).records.Perm (recordsBelow tree place excluded maxFileSize entries) :=
    Multiset.coe_eq_coe.mp (congrArg Prod.fst (tally_ofDirectory named tree place excluded maxFileSize))
  have files := List.mergeSort_perm (Folder.ofDirectory tree (.excluding excluded maxFileSize) place
    entries).records fun a b => decide (a.path ≤ b.path)
  have ofSeen : ∀ names, (∃ node, (names, node) ∈ seenBelow excluded entries) →
      ∃ front name node, names = front ++ [name] ∧ isEntryName name = true
        ∧ IsVisible excluded names ∧ tree.plain? (place ++ names) = some node := by
    rintro names ⟨node, isSeen⟩
    obtain ⟨nonempty, leads, visible⟩ := (mem_seenBelow_iff named here).mp isSeen
    obtain ⟨front, name, rfl⟩ := (List.eq_nil_or_concat names).resolve_left nonempty
    rw [List.concat_eq_append] at leads visible isSeen ⊢
    exact ⟨front, name, node, rfl, isEntryName_of_mem_seenBelow named isSeen name (by simp), visible,
      leads⟩
  have drawn := Folder.read?_treeLines recent placed fun names isSeen => by
    obtain ⟨front, name, node, rfl, entryName, visible, -⟩ := ofSeen names isSeen
    rw [List.getLastD_concat]
    exact ⟨entryName, visible.notHidden name (by simp)⟩
  refine ⟨tablesAgree _, visitsAgree files.symm, ?_, fun unbroken => ?_⟩
  · exact linesAgree_of_perm named placed here records files rfl drawn
  · -- The text gives back the lines it was joined from, since no name breaks one.
    have lines := TreeLine.readText_join (Folder.unbroken_treeLines recent placed fun names isSeen => by
      obtain ⟨front, name, node, rfl, -, visible, leads⟩ := ofSeen names isSeen
      rw [List.getLastD_concat]
      exact unbroken front name node visible leads)
    exact linesAgree_of_perm named placed here records files rfl (lines ▸ drawn)

/-- A survey gives the catalogue of the directory, unless it meets a file that was changed in a year
outside of the calendar. -/
theorem survey_of_isDirectory {tree : FileTree} {here place : List String} {path : String}
    {rules : SurveyRules} {recentDays : Value} {now : Int} {entries : List (String × FileNode)}
    {recent : Float}
    (isDirectory : (tree.names? here path).bind tree.find? = some (place, .directory entries))
    (span : recentSince now recentDays = .ok recent) :
    (∀ record ∈ (ofDirectory tree rules recent place entries).files,
        Timestamp.isDated record.time = true)
      ∧ survey tree here path rules recentDays now = .ok (ofDirectory tree rules recent place entries)
    ∨ ∃ record ∈ (ofDirectory tree rules recent place entries).files,
      Timestamp.isDated record.time = false ∧ ∃ before,
        survey tree here path rules recentDays now = .error (.undated record.time before) := by
  rcases datingFault?_cases (ofDirectory tree rules recent place entries).visited with
    ⟨noFault, dated⟩ | ⟨record, met, undated, before, fault⟩
  · refine .inl ⟨fun record member => dated record (List.mem_mergeSort.mp member), ?_⟩
    simp [survey, isDirectory, span, noFault]
  · refine .inr ⟨record, List.mem_mergeSort.mpr met, undated, before, ?_⟩
    simp [survey, isDirectory, span, fault]

/-- The inventories of a survey agree. It fails only if it meets a file that was changed in a year
outside of the calendar. -/
theorem inventories_agree (tree : FileTree) (here : List String) (path : String)
    (excluded : List String) (maxFileSize : Int) (recentDays : Value) (now : Int)
    {place : List String} {entries : List (String × FileNode)} {recent : Float}
    (named : tree.root.isWellNamed = true)
    (isDirectory : (tree.names? here path).bind tree.find? = some (place, .directory entries))
    (span : recentSince now recentDays = .ok recent) :
    ∃ catalog : Catalog, catalog.InventoriesAgree tree place excluded
      ∧ ((∀ record ∈ catalog.files, Timestamp.isDated record.time = true)
          ∧ survey tree here path (.excluding excluded maxFileSize) recentDays now = .ok catalog
        ∨ ∃ record ∈ catalog.files, Timestamp.isDated record.time = false ∧ ∃ before,
          survey tree here path (.excluding excluded maxFileSize) recentDays now
            = .error (.undated record.time before)) := by
  obtain ⟨names, -, found⟩ := Option.bind_eq_some_iff.mp isDirectory
  have there : tree.plain? place = some (.directory entries) := FileTree.plain?_of_walk found
  have namedThere := FileNode.isWellNamed_of_at? named there
  exact ⟨ofDirectory tree (.excluding excluded maxFileSize) recent place entries,
    inventoriesAgree_ofDirectory namedThere there maxFileSize recent,
    survey_of_isDirectory isDirectory span⟩

/-- A project with a folder of pictures, two of them assets. -/
def picturedEntries : List (String × FileNode) :=
  [("app.js", .file .empty 0), ("pictures", .directory [("a.png", .file .empty 0),
    ("b.png", .file .empty 0), ("index.html", .link "../app.js")]), ("tests", .directory [])]

def picturedProject : FileTree := ⟨"/srv", .directory [("project", .directory picturedEntries)]⟩

theorem picturedProject_agrees :
    ∃ catalog : Catalog, catalog.InventoriesAgree picturedProject ["project"] ["tests"]
      ∧ catalog.LinesAgree picturedProject ["project"] ["tests"]
        (TreeLine.readText (Text.join "\n" catalog.tree))
      ∧ ((∀ record ∈ catalog.files, Timestamp.isDated record.time = true)
          ∧ survey picturedProject [] "project" (.excluding ["tests"] 5242880) (.int 7) 0 = .ok catalog
        ∨ ∃ record ∈ catalog.files, Timestamp.isDated record.time = false ∧ ∃ before,
          survey picturedProject [] "project" (.excluding ["tests"] 5242880) (.int 7) 0
            = .error (.undated record.time before)) := by
  have named : picturedProject.root.isWellNamed = true := by decide +kernel
  have isDirectory : (picturedProject.names? [] "project").bind picturedProject.find?
      = some (["project"], .directory picturedEntries) := by rfl
  have span : recentSince 0 (.int 7)
      = .ok (quotient 0 1000000 - quotient 604800000000 1000000) := by rfl
  have namedHere : (FileNode.directory picturedEntries).isWellNamed = true := by decide +kernel
  have unbroken : NamesUnbroken picturedProject ["project"] ["tests"] := by
    intro names name node _ leads
    have listed : ∀ item ∈ (FileNode.directory picturedEntries).descendants,
        '\n' ∉ (item.1.getLastD "").toList := by decide +kernel
    have member := (FileNode.mem_descendants_iff namedHere).mpr ⟨by simp, leads⟩
    simpa using listed _ member
  obtain ⟨catalog, agrees, surveyed⟩ := inventories_agree picturedProject [] "project" ["tests"] 5242880
    (.int 7) 0 named isDirectory span
  exact ⟨catalog, agrees, agrees.text unbroken, surveyed⟩

/-- A file whose name goes on in a line of its own, with branches in front. -/
def brokenName : String := "a\n└── b.js"

def brokenProject : FileTree :=
  ⟨"/srv", .directory [("project", .directory [(brokenName, .file .empty 0)])]⟩

def brokenFolder : Folder := .mk "" [.ofFile 5242880 brokenName brokenName .empty 0] 0 []

theorem ofDirectory_brokenProject :
    Folder.ofDirectory brokenProject (.excluding [] 5242880) ["project"]
      [(brokenName, .file .empty 0)] = brokenFolder := by
  have passes : isExcluded brokenName brokenName (exclusionPatterns []) = false := by decide +kernel
  have notMinified : isMinified brokenName = false := by decide +kernel
  simp [Folder.ofDirectory, Folder.prune, Folder.entryOf?, Folder.entryOfFile, childPath, brokenFolder,
    SurveyRules.excluding, passes, notMinified, Folder.ofEntries, Folder.sortEntries]

theorem readText_brokenFolder (recent : Float) :
    TreeLine.readText (Text.join "\n" (brokenFolder.treeLines recent "")) = [.file, .file] := by
  obtain ⟨ending, line, unbroken, noSlash⟩ := TreeLine.exists_fileLine recent
    (.ofFile 5242880 brokenName brokenName .empty 0)
  rw [FileRecord.name_ofFile] at line
  have isListed : isListed (extensionOf brokenName) = true := by decide +kernel
  have oneLine : brokenFolder.treeLines recent "" = ["└── " ++ (brokenName ++ ending)] := by
    simp [brokenFolder, Folder.treeLines, Folder.folderLines, Folder.fileLines, Folder.leafLines,
      isListed, line]
  have twoLines : Text.join "\n" ["└── " ++ (brokenName ++ ending)]
      = Text.join "\n" ["└── " ++ "a", "└── " ++ ("b.js" ++ ending)] := by
    rw [← String.toList_inj]
    simp [Text.join, brokenName]
  have drawn : List.Forall₂ TreeLine.IsDrawn ["└── " ++ "a", "└── " ++ ("b.js" ++ ending)]
      ["a" ++ "", "b.js" ++ ending] :=
    .cons (TreeLine.isLead_empty.isDrawn true _) (.cons (TreeLine.isLead_empty.isDrawn true _) .nil)
  have ofA : TreeLine.ofLabel ("a" ++ "").toList = .file :=
    TreeLine.IsShownName.ofLabel_file ⟨by decide, by decide⟩ (.inl rfl)
  have ofB : TreeLine.ofLabel ("b.js" ++ ending).toList = .file :=
    TreeLine.IsShownName.ofLabel_file ⟨by decide, by decide⟩ noSlash
  rw [oneLine, twoLines, TreeLine.readText_join, TreeLine.filterMap_read? drawn, List.map_cons,
    List.map_singleton, ofA, ofB]
  refine TreeLine.unbroken_of_drawn drawn ?_
  simpa [String.toList_append] using unbroken

/-- Two lines of the text stand for the one file. -/
theorem brokenName_drawn_twice :
    ∃ catalog : Catalog, catalog.files.length = 1
      ∧ (TreeLine.readText (Text.join "\n" catalog.tree)).count .file = 2
      ∧ ((∀ record ∈ catalog.files, Timestamp.isDated record.time = true)
          ∧ survey brokenProject [] "project" (.excluding [] 5242880) (.int 7) 0 = .ok catalog
        ∨ ∃ record ∈ catalog.files, Timestamp.isDated record.time = false ∧ ∃ before,
          survey brokenProject [] "project" (.excluding [] 5242880) (.int 7) 0
            = .error (.undated record.time before)) := by
  have isDirectory : (brokenProject.names? [] "project").bind brokenProject.find?
      = some (["project"], .directory [(brokenName, .file .empty 0)]) := by rfl
  have span : recentSince 0 (.int 7)
      = .ok (quotient 0 1000000 - quotient 604800000000 1000000) := by rfl
  refine ⟨_, ?_, ?_, survey_of_isDirectory isDirectory span⟩
  · simp [ofDirectory, ofDirectory_brokenProject, brokenFolder, Folder.records, Folder.recordsOfAll]
  · simp only [ofDirectory, ofDirectory_brokenProject, readText_brokenFolder]
    decide

end Catalog

end Surveyor
