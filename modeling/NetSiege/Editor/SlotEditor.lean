import Mathlib.Data.List.Basic
import NetSiege.Editor.CampaignSlots

/-!
# The slot editor (`sloteditor.cpp`)

A table with a button for each slot of the boundary, and for the slots in the columns and rows that
are added around it. A button keeps the coordinates the table gave it when it was made. The table
places its cells around the boundary, and a new column or row goes to the end that leaves the
buttons in place only where the boundary has an even number of columns or rows
(`inPlace_iff`).
-/

namespace NetSiege

open Lib

/-- `SlotWidget`. -/
structure SlotWidget where
  x : Int
  y : Int
  defined : Bool := false
deriving DecidableEq

/-- `QTableWidget`; a cell has a row and a column. -/
structure SlotTable where
  rowCount : Nat
  columnCount : Nat
  cellWidget : Nat → Nat → Option SlotWidget

namespace SlotTable

/-- `QTableWidget::setCellWidget`. -/
def setCellWidget (t : SlotTable) (row column : Nat) (widget : SlotWidget) : SlotTable :=
  { t with cellWidget := fun r c =>
      if r = row ∧ c = column then some widget else t.cellWidget r c }

/-- `QTableWidget::insertColumn`. -/
def insertColumn (t : SlotTable) (column : Nat) : SlotTable :=
  { t with
    columnCount := t.columnCount + 1
    cellWidget := fun r c =>
      if c < column then t.cellWidget r c
      else if c = column then none
      else t.cellWidget r (c - 1) }

/-- `QTableWidget::insertRow`. -/
def insertRow (t : SlotTable) (row : Nat) : SlotTable :=
  { t with
    rowCount := t.rowCount + 1
    cellWidget := fun r c =>
      if r < row then t.cellWidget r c
      else if r = row then none
      else t.cellWidget (r - 1) c }

/-- `SlotEditor::slotToTable`, with the column and the row. -/
def slotToTable (t : SlotTable) (bound : Box Int) (slotX slotY : Int) : Int × Int :=
  (slotX - bound.left + (t.columnCount - bound.right + bound.left).tdiv 2,
    slotY - bound.top + (t.rowCount - bound.bottom + bound.top).tdiv 2)

/-- `SlotEditor::tableToSlot`. -/
def tableToSlot (t : SlotTable) (bound : Box Int) (column row : Int) : Int × Int :=
  (column + bound.left - (t.columnCount - bound.right + bound.left).tdiv 2,
    row + bound.top - (t.rowCount - bound.bottom + bound.top).tdiv 2)

/-- The loop of `SlotEditor::addColumn`, and the inner loop of `SlotEditor::populate`. -/
def fillColumn (bound : Box Int) (t : SlotTable) (column : Nat) : SlotTable :=
  (List.range t.rowCount).foldl (fun t (i : Nat) =>
    let (slotX, slotY) := t.tableToSlot bound column i
    t.setCellWidget i column { x := slotX, y := slotY }) t

/-- The loop of `SlotEditor::addRow`. -/
def fillRow (bound : Box Int) (t : SlotTable) (row : Nat) : SlotTable :=
  (List.range t.columnCount).foldl (fun t (i : Nat) =>
    let (slotX, slotY) := t.tableToSlot bound i row
    t.setCellWidget row i { x := slotX, y := slotY }) t

/-- The `insertIdx` of `SlotEditor::addColumn` and `SlotEditor::addRow`. -/
def insertIdx (count : Nat) : Nat := if count % 2 = 1 then count else 0

/-- `SlotEditor::addColumn`. -/
def addColumn (bound : Box Int) (t : SlotTable) : SlotTable :=
  (t.insertColumn (insertIdx t.columnCount)).fillColumn bound (insertIdx t.columnCount)

/-- `SlotEditor::addRow`. -/
def addRow (bound : Box Int) (t : SlotTable) : SlotTable :=
  (t.insertRow (insertIdx t.rowCount)).fillRow bound (insertIdx t.rowCount)

/-- One turn of the last loop of `SlotEditor::populate`. -/
def markDefined (G : TerrainGroup) (bound : Box Int) (t : SlotTable) (idx : UInt32) : SlotTable :=
  let (x, y) := G.unpackIndex idx
  let (column, row) := t.slotToTable bound x y
  if 0 ≤ row ∧ 0 ≤ column then
    match t.cellWidget row.toNat column.toNat with
    | some widget => t.setCellWidget row.toNat column.toNat { widget with defined := true }
    | none => t
  else t

/-- `SlotEditor::populate`. -/
def populate (G : TerrainGroup) (m : CampaignSlots) : SlotTable :=
  let bound := m.slotBoundary
  let t : SlotTable := {
    rowCount := (bound.bottom - bound.top + 1).toNat
    columnCount := (bound.right - bound.left + 1).toNat
    cellWidget := fun _ _ => none }
  let t := (List.range t.columnCount).foldl (fillColumn bound) t
  m.definedTerrainSlots.foldl (markDefined G bound) t

/-- The buttons of the editor that add to the table. -/
inductive GridCall where
  | addColumn
  | addRow

/-- The table after a call. -/
def apply (bound : Box Int) (t : SlotTable) : GridCall → SlotTable
  | .addColumn => t.addColumn bound
  | .addRow => t.addRow bound

/-! ## The other way around -/

section
variable {t t' : SlotTable} {bound : Box Int} {row column : Nat}

/-- The table with rows and columns exchanged. -/
def swap (t : SlotTable) : SlotTable where
  rowCount := t.columnCount
  columnCount := t.rowCount
  cellWidget r c := (t.cellWidget c r).map fun w => ⟨w.y, w.x, w.defined⟩

/-- The boundary with its coordinates exchanged. -/
def swapBound (bound : Box Int) : Box Int := ⟨bound.top, bound.left, bound.bottom, bound.right⟩

theorem swap_swap (t : SlotTable) : t.swap.swap = t := by
  obtain ⟨rowCount, columnCount, cellWidget⟩ := t
  simp [swap, Function.comp_def]

theorem swap_setCellWidget (t : SlotTable) (row column : Nat) (x y : Int) (defined : Bool) :
    (t.setCellWidget row column ⟨x, y, defined⟩).swap =
      t.swap.setCellWidget column row ⟨y, x, defined⟩ := by
  simp only [swap, setCellWidget, mk.injEq, true_and]
  funext r c
  simp only [and_comm (a := c = row)]
  split
  · rfl
  · rfl

theorem swap_insertRow (t : SlotTable) (row : Nat) :
    (t.insertRow row).swap = t.swap.insertColumn row := by
  simp only [swap, insertRow, insertColumn, mk.injEq, true_and]
  funext r c
  split
  · rfl
  · split
    · rfl
    · rfl

theorem swap_fillRow (t : SlotTable) (bound : Box Int) (row : Nat) :
    (t.fillRow bound row).swap = t.swap.fillColumn (swapBound bound) row :=
  (List.foldl_hom swap fun _ _ => (swap_setCellWidget _ _ _ _ _ _).symm).symm

theorem swap_addRow (t : SlotTable) (bound : Box Int) :
    (t.addRow bound).swap = t.swap.addColumn (swapBound bound) := by
  rw [addRow, swap_fillRow, swap_insertRow]
  rfl

theorem swap_addColumn (t : SlotTable) (bound : Box Int) :
    (t.addColumn bound).swap = t.swap.addRow (swapBound bound) := by
  rw [← swap_swap (t.swap.addRow _), swap_addRow, swap_swap]
  rfl

/-! ## What a new column changes -/

/-- The first coordinate of the button in a cell. -/
def slotX (t : SlotTable) (row column : Nat) : Option Int := (t.cellWidget row column).map (·.x)

/-- Where the table places a column. -/
def columnX (t : SlotTable) (bound : Box Int) (column : Nat) : Int :=
  column + bound.left - (t.columnCount - bound.right + bound.left).tdiv 2

theorem columnX_congr (h : t'.columnCount = t.columnCount) :
    t'.columnX bound column = t.columnX bound column := by rw [columnX, h, columnX]

theorem tableToSlot_congr (hrows : t'.rowCount = t.rowCount)
    (hcolumns : t'.columnCount = t.columnCount) (column row : Int) :
    t'.tableToSlot bound column row = t.tableToSlot bound column row := by
  rw [tableToSlot, hrows, hcolumns, tableToSlot]

/-- The loop over the rows of a column, up to a row. -/
structure FilledTo (bound : Box Int) (t : SlotTable) (column n : Nat) (t' : SlotTable) : Prop where
  rowCount : t'.rowCount = t.rowCount
  columnCount : t'.columnCount = t.columnCount
  cell : ∀ r c, t'.cellWidget r c =
    if c = column ∧ r < n then
      let (x, y) := t.tableToSlot bound column r
      some { x, y }
    else t.cellWidget r c

theorem FilledTo.next (h : FilledTo bound t column n t') :
    FilledTo bound t column (n + 1)
      (let (slotX, slotY) := t'.tableToSlot bound column n
      t'.setCellWidget n column { x := slotX, y := slotY }) := by
  refine ⟨h.rowCount, h.columnCount, fun r c => ?_⟩
  rw [tableToSlot_congr h.rowCount h.columnCount]
  simp only [setCellWidget, h.cell]
  by_cases hcell : r = n ∧ c = column
  · obtain ⟨rfl, rfl⟩ := hcell
    rw [if_pos ⟨rfl, rfl⟩, if_pos ⟨rfl, Nat.lt_succ_self r⟩]
  · rw [if_neg hcell]
    have hiff : c = column ∧ r < n ↔ c = column ∧ r < n + 1 := by omega
    simp only [hiff]

theorem filledTo_fillColumn (bound : Box Int) (t : SlotTable) (column : Nat) :
    FilledTo bound t column t.rowCount (t.fillColumn bound column) := by
  rw [fillColumn]
  generalize t.rowCount = n
  induction n with
  | zero => exact ⟨rfl, rfl, fun r c => by simp⟩
  | succ n ih =>
    rw [List.range_succ, List.foldl_append]
    exact ih.next

theorem filledTo_addColumn (bound : Box Int) (t : SlotTable) :
    FilledTo bound (t.insertColumn (insertIdx t.columnCount)) (insertIdx t.columnCount) t.rowCount
      (t.addColumn bound) := filledTo_fillColumn ..

@[simp] theorem rowCount_addColumn : (t.addColumn bound).rowCount = t.rowCount :=
  (filledTo_addColumn bound t).rowCount

@[simp] theorem columnCount_addColumn : (t.addColumn bound).columnCount = t.columnCount + 1 :=
  (filledTo_addColumn bound t).columnCount

theorem addRow_eq_swap : t.addRow bound = (t.swap.addColumn (swapBound bound)).swap := by
  rw [← swap_addRow, swap_swap]

@[simp] theorem rowCount_addRow : (t.addRow bound).rowCount = t.rowCount + 1 := by
  rw [addRow_eq_swap]
  exact columnCount_addColumn

@[simp] theorem columnCount_addRow : (t.addRow bound).columnCount = t.columnCount := by
  rw [addRow_eq_swap]
  exact rowCount_addColumn

/-- The cells after a column was added. -/
theorem cellWidget_addColumn {r : Nat} (hr : r < t.rowCount) (c : Nat) :
    (t.addColumn bound).cellWidget r c =
      if c < insertIdx t.columnCount then t.cellWidget r c
      else if c = insertIdx t.columnCount then
        let (x, y) := (t.addColumn bound).tableToSlot bound c r
        some { x, y }
      else t.cellWidget r (c - 1) := by
  have hfilled := filledTo_addColumn bound t
  rw [hfilled.cell, tableToSlot_congr hfilled.rowCount hfilled.columnCount]
  by_cases hc : c = insertIdx t.columnCount
  · subst hc
    rw [if_pos ⟨rfl, hr⟩, if_neg (lt_irrefl _), if_pos rfl]
  · rw [if_neg fun h => hc h.1, insertColumn, if_neg hc]
    simp only [hc, if_false]

theorem slotX_addColumn {r : Nat} (hr : r < t.rowCount) (c : Nat) :
    (t.addColumn bound).slotX r c =
      if c < insertIdx t.columnCount then t.slotX r c
      else if c = insertIdx t.columnCount then some ((t.addColumn bound).columnX bound c)
      else t.slotX r (c - 1) := by
  rw [slotX, cellWidget_addColumn hr]
  split
  · rfl
  · split
    · rfl
    · rfl

theorem slotX_swap (t : SlotTable) (r c : Nat) :
    t.swap.slotX r c = (t.cellWidget c r).map (·.y) := by
  rw [slotX, swap, Option.map_map]
  rfl

theorem slotX_addRow {c : Nat} (hc : c < t.columnCount) (r : Nat) :
    (t.addRow bound).slotX r c =
      if r < insertIdx t.rowCount then t.slotX r c
      else if r = insertIdx t.rowCount then some (t.columnX bound c)
      else t.slotX (r - 1) c := by
  have hback : ∀ r, t.slotX r c = (t.swap.cellWidget c r).map (·.y) := by
    intro r
    rw [← slotX_swap, swap_swap]
  rw [addRow_eq_swap, slotX_swap, cellWidget_addColumn (t := t.swap) hc, hback, hback]
  change Option.map _ (if r < insertIdx t.rowCount then _ else if r = insertIdx t.rowCount then _
    else _) = _
  split
  · rfl
  · split
    · have hcolumns : ((t.swap.addColumn (swapBound bound)).rowCount : Int) = t.columnCount := by
        rw [rowCount_addColumn]
        rfl
      simp only [tableToSlot, hcolumns]
      rfl
    · rfl

/-! ## Columns in place -/

/-- The buttons of every column have the first coordinate the table gives the column. -/
def ColumnsInPlace (bound : Box Int) (t : SlotTable) : Prop :=
  ∀ r < t.rowCount, ∀ c < t.columnCount, t.slotX r c = some (t.columnX bound c)

/-- Two buttons of a row have the same first coordinate. -/
def Collide (t : SlotTable) : Prop :=
  ∃ r < t.rowCount, ∃ c < t.columnCount, ∃ c' < t.columnCount, c ≠ c' ∧ ∃ x,
    t.slotX r c = some x ∧ t.slotX r c' = some x

theorem Collide.not_inPlace (h : t.Collide) : ¬ ColumnsInPlace bound t := by
  obtain ⟨r, hr, c, hc, c', hc', hne, x, hx, hx'⟩ := h
  intro hplace
  have heq : some (t.columnX bound c) = some (t.columnX bound c') := by
    rw [← hplace r hr c hc, ← hplace r hr c' hc', hx, hx']
  simp only [columnX, Option.some.injEq] at heq
  omega

theorem Collide.addColumn (h : t.Collide) : (t.addColumn bound).Collide := by
  obtain ⟨r, hr, c, hc, c', hc', hne, x, hx, hx'⟩ := h
  -- where a column has gone
  let moved (c : Nat) := if c < insertIdx t.columnCount then c else c + 1
  have hslot : ∀ c, (t.addColumn bound).slotX r (moved c) = t.slotX r c := by
    intro c
    rw [slotX_addColumn hr]
    grind
  have hlt : ∀ c < t.columnCount, moved c < (t.addColumn bound).columnCount := by
    intro c hc
    rw [columnCount_addColumn]
    grind
  refine ⟨r, by rwa [rowCount_addColumn], moved c, hlt c hc, moved c', hlt c' hc', by grind, x,
    ?_, ?_⟩
  · rw [hslot, hx]
  · rw [hslot, hx']

theorem Collide.addRow (h : t.Collide) : (t.addRow bound).Collide := by
  obtain ⟨r, hr, c, hc, c', hc', hne, x, hx, hx'⟩ := h
  have hslot : ∀ c < t.columnCount, (t.addRow bound).slotX
      (if r < insertIdx t.rowCount then r else r + 1) c = t.slotX r c := by
    intro c hc
    rw [slotX_addRow hc]
    grind
  refine ⟨if r < insertIdx t.rowCount then r else r + 1, ?_, c, by rwa [columnCount_addRow], c',
    by rwa [columnCount_addRow], hne, x, ?_, ?_⟩
  · rw [rowCount_addRow]
    grind
  · rw [hslot c hc, hx]
  · rw [hslot c' hc', hx']

/-- A new row leaves the columns where they are. -/
theorem ColumnsInPlace.addRow (h : ColumnsInPlace bound t) :
    ColumnsInPlace bound (t.addRow bound) := by
  intro r hr c hc
  rw [columnCount_addRow] at hc
  rw [rowCount_addRow] at hr
  rw [slotX_addRow hc, columnX_congr columnCount_addRow]
  split
  · next hlt =>
    refine h r ?_ c hc
    grind [insertIdx]
  · split
    · rfl
    · next hge hne => exact h (r - 1) (by grind [insertIdx]) c hc

/-- Where a column is, once the table is no narrower than the boundary. -/
theorem columnX_eq (hcount : bound.right - bound.left ≤ t.columnCount) (c : Nat) :
    t.columnX bound c = c + bound.left - (t.columnCount - bound.right + bound.left) / 2 := by
  rw [columnX, Int.tdiv_eq_ediv_of_nonneg (by omega)]

/-- Where the boundary has an even number of columns, a new column goes to its place. -/
theorem ColumnsInPlace.addColumn (h : ColumnsInPlace bound t)
    (hcount : bound.right - bound.left ≤ t.columnCount)
    (hodd : (bound.right - bound.left) % 2 = 1) : ColumnsInPlace bound (t.addColumn bound) := by
  intro r hr c hc
  rw [rowCount_addColumn] at hr
  have hcolumns : (t.addColumn bound).columnCount = t.columnCount + 1 := columnCount_addColumn
  have hcount' : bound.right - bound.left ≤ (t.addColumn bound).columnCount := by omega
  have hplace := columnX_eq hcount'
  rw [slotX_addColumn hr]
  rw [hcolumns] at hc
  split
  · next hlt =>
    simp only [insertIdx] at hlt
    have hcold : c < t.columnCount := by grind
    rw [h r hr c hcold, hplace, columnX_eq hcount, hcolumns, Option.some.injEq]
    grind
  · split
    · rfl
    · next hge hne =>
      simp only [insertIdx] at hge hne
      have hcold : c - 1 < t.columnCount := by omega
      rw [h r hr (c - 1) hcold, hplace, columnX_eq hcount, hcolumns, Option.some.injEq]
      grind

/-- Where it has an odd number, the first column to be added repeats the last one. -/
theorem ColumnsInPlace.collide_addColumn (h : ColumnsInPlace bound t) (hrows : 0 < t.rowCount)
    (hwidth : bound.left ≤ bound.right)
    (hcount : (t.columnCount : Int) = bound.right - bound.left + 1)
    (heven : (bound.right - bound.left) % 2 = 0) : (t.addColumn bound).Collide := by
  have hcolumns : (t.addColumn bound).columnCount = t.columnCount + 1 := columnCount_addColumn
  have hidx : insertIdx t.columnCount = t.columnCount := if_pos (by omega)
  refine ⟨0, by rwa [rowCount_addColumn], t.columnCount - 1, by omega, t.columnCount, by omega,
    by omega, bound.right, ?_, ?_⟩
  · rw [slotX_addColumn hrows, hidx, if_pos (by omega), h 0 hrows _ (by omega),
      columnX_eq (by omega), Option.some.injEq]
    omega
  · rw [slotX_addColumn hrows, hidx, if_neg (by omega), if_pos rfl, columnX_eq (by omega), hcolumns,
      Option.some.injEq]
    omega

/-! ## Runs of the buttons -/

theorem Collide.run (h : t.Collide) (calls : List GridCall) :
    (calls.foldl (apply bound) t).Collide := by
  induction calls generalizing t with
  | nil => exact h
  | cons call calls ih =>
    cases call with
    | addColumn => exact ih h.addColumn
    | addRow => exact ih h.addRow

theorem ColumnsInPlace.run (h : ColumnsInPlace bound t)
    (hcount : bound.right - bound.left ≤ t.columnCount)
    (hodd : (bound.right - bound.left) % 2 = 1) (calls : List GridCall) :
    ColumnsInPlace bound (calls.foldl (apply bound) t) := by
  induction calls generalizing t with
  | nil => exact h
  | cons call calls ih =>
    cases call with
    | addColumn =>
      refine ih (h.addColumn hcount hodd) ?_
      rw [apply, columnCount_addColumn]
      omega
    | addRow =>
      refine ih h.addRow ?_
      rwa [apply, columnCount_addRow]

/-- The columns stay in place if none is added, or the boundary has an even number of them. -/
theorem columnsInPlace_run_iff (h : ColumnsInPlace bound t) (hrows : 0 < t.rowCount)
    (hwidth : bound.left ≤ bound.right)
    (hcount : (t.columnCount : Int) = bound.right - bound.left + 1) (calls : List GridCall) :
    ColumnsInPlace bound (calls.foldl (apply bound) t) ↔
      (.addColumn ∈ calls → (bound.right - bound.left) % 2 = 1) := by
  obtain heven | hodd := Int.emod_two_eq_zero_or_one (bound.right - bound.left)
  · have hne : (bound.right - bound.left) % 2 ≠ 1 := by omega
    simp only [hne]
    induction calls generalizing t with
    | nil => simpa using h
    | cons call calls ih =>
      cases call with
      | addColumn =>
        have hcollide := h.collide_addColumn hrows hwidth hcount heven
        have hrun : Collide (calls.foldl (apply bound) (t.addColumn bound)) := hcollide.run calls
        simp [apply, hrun.not_inPlace]
      | addRow =>
        have hrows' : 0 < (t.addRow bound).rowCount := by
          rw [rowCount_addRow]
          exact Nat.succ_pos _
        have hcount' : ((t.addRow bound).columnCount : Int) = bound.right - bound.left + 1 := by
          rwa [columnCount_addRow]
        simpa [apply] using ih h.addRow hrows' hcount'
  · exact ⟨fun _ _ => hodd, fun _ => h.run (by omega) hodd calls⟩

/-- A call seen with rows and columns exchanged. -/
def GridCall.swap : GridCall → GridCall
  | .addColumn => .addRow
  | .addRow => .addColumn

theorem swap_run (bound : Box Int) (t : SlotTable) (calls : List GridCall) :
    (calls.foldl (apply bound) t).swap =
      (calls.map GridCall.swap).foldl (apply (swapBound bound)) t.swap := by
  induction calls generalizing t with
  | nil => rfl
  | cons call calls ih =>
    rw [List.foldl_cons, ih, List.map_cons, List.foldl_cons]
    cases call with
    | addColumn => rw [apply, swap_addColumn]; rfl
    | addRow => rw [apply, swap_addRow]; rfl

theorem addColumn_mem_map_swap {calls : List GridCall} :
    .addColumn ∈ calls.map GridCall.swap ↔ .addRow ∈ calls := by
  rw [List.mem_map]
  refine ⟨fun ⟨call, hcall, heq⟩ => ?_, fun h => ⟨_, h, rfl⟩⟩
  cases call with
  | addColumn => cases heq
  | addRow => exact hcall

/-! ## The table of a campaign -/

/-- Every button has the coordinates the table gives its cell. -/
def Placed (bound : Box Int) (t : SlotTable) : Prop :=
  ∀ r < t.rowCount, ∀ c < t.columnCount,
    (t.cellWidget r c).map (fun w => (w.x, w.y)) = some (t.tableToSlot bound c r)

theorem placed_iff : Placed bound t ↔
    ColumnsInPlace bound t ∧ ColumnsInPlace (swapBound bound) t.swap := by
  refine ⟨fun h => ⟨fun r hr c hc => ?_, fun c hc r hr => ?_⟩, fun ⟨hx, hy⟩ r hr c hc => ?_⟩
  · obtain ⟨w, hw, heq⟩ := Option.map_eq_some_iff.1 (h r hr c hc)
    rw [slotX, hw, Option.map_some, Option.some.injEq]
    exact congrArg Prod.fst heq
  · obtain ⟨w, hw, heq⟩ := Option.map_eq_some_iff.1 (h r hr c hc)
    rw [slotX_swap, hw, Option.map_some, Option.some.injEq]
    exact congrArg Prod.snd heq
  · obtain ⟨w, hw, hwx⟩ := Option.map_eq_some_iff.1 (hx r hr c hc)
    have hwy := hy c hc r hr
    rw [slotX_swap, hw, Option.map_some, Option.some.injEq] at hwy
    rw [hw, Option.map_some, Option.some.injEq]
    exact Prod.ext hwx hwy

/-- Marking a button leaves it where it is. -/
theorem Placed.setDefined (h : Placed bound t) {widget : SlotWidget}
    (hwidget : t.cellWidget row column = some widget) :
    Placed bound (t.setCellWidget row column { widget with defined := true }) := by
  intro r hr c hc
  have hcell := h r hr c hc
  change _ = some (t.tableToSlot bound c r)
  rw [← hcell, setCellWidget]
  dsimp only
  split
  · next heq =>
    rw [heq.1, heq.2, hwidget]
    rfl
  · rfl

theorem Placed.markDefined (h : Placed bound t) (G : TerrainGroup) (idx : UInt32) :
    Placed bound (t.markDefined G bound idx) ∧
      (t.markDefined G bound idx).rowCount = t.rowCount ∧
      (t.markDefined G bound idx).columnCount = t.columnCount := by
  simp only [SlotTable.markDefined]
  split
  · split
    · next widget hwidget => exact ⟨h.setDefined hwidget, rfl, rfl⟩
    · exact ⟨h, rfl, rfl⟩
  · exact ⟨h, rfl, rfl⟩

theorem Placed.foldl_markDefined (h : Placed bound t) (G : TerrainGroup) (slots : List UInt32) :
    Placed bound (slots.foldl (SlotTable.markDefined G bound) t) ∧
      (slots.foldl (SlotTable.markDefined G bound) t).rowCount = t.rowCount ∧
      (slots.foldl (SlotTable.markDefined G bound) t).columnCount = t.columnCount := by
  induction slots generalizing t with
  | nil => exact ⟨h, rfl, rfl⟩
  | cons idx slots ih =>
    obtain ⟨hplaced, hrows, hcolumns⟩ := h.markDefined G idx
    obtain ⟨hplaced', hrows', hcolumns'⟩ := ih hplaced
    exact ⟨hplaced', hrows'.trans hrows, hcolumns'.trans hcolumns⟩

/-- The outer loop of `populate`, up to a column. -/
theorem foldl_fillColumn (bound : Box Int) (t : SlotTable) (n : Nat) :
    ((List.range n).foldl (fillColumn bound) t).rowCount = t.rowCount ∧
      ((List.range n).foldl (fillColumn bound) t).columnCount = t.columnCount ∧
      ∀ r < t.rowCount, ∀ c < n,
        (((List.range n).foldl (fillColumn bound) t).cellWidget r c).map (fun w => (w.x, w.y)) =
          some (t.tableToSlot bound c r) := by
  induction n with
  | zero => exact ⟨rfl, rfl, nofun⟩
  | succ n ih =>
    obtain ⟨hrows, hcolumns, hcell⟩ := ih
    rw [List.range_succ, List.foldl_append, List.foldl_cons, List.foldl_nil]
    generalize (List.range n).foldl (fillColumn bound) t = t' at hrows hcolumns hcell
    have hfilled := filledTo_fillColumn bound t' n
    refine ⟨hfilled.rowCount.trans hrows, hfilled.columnCount.trans hcolumns, fun r hr c hc => ?_⟩
    rw [hfilled.cell]
    split
    · next hnew =>
      rw [tableToSlot_congr hrows hcolumns, hnew.1]
      rfl
    · next hold => exact hcell r hr c (by omega)

theorem placed_fill (bound : Box Int) (t : SlotTable) :
    Placed bound ((List.range t.columnCount).foldl (fillColumn bound) t) := by
  obtain ⟨hrows, hcolumns, hcell⟩ := foldl_fillColumn bound t t.columnCount
  intro r hr c hc
  rw [tableToSlot_congr hrows hcolumns]
  exact hcell r (lt_of_lt_of_eq hr hrows) c (lt_of_lt_of_eq hc hcolumns)

/-- The table as it is made. -/
theorem placed_populate (G : TerrainGroup) (m : CampaignSlots) :
    Placed m.slotBoundary (populate G m) ∧
      (populate G m).rowCount = (m.slotBoundary.bottom - m.slotBoundary.top + 1).toNat ∧
      (populate G m).columnCount = (m.slotBoundary.right - m.slotBoundary.left + 1).toNat := by
  rw [populate]
  dsimp only
  generalize ht : (⟨_, _, _⟩ : SlotTable) = t
  obtain ⟨hrows, hcolumns, -⟩ := foldl_fillColumn m.slotBoundary t t.columnCount
  obtain ⟨hplaced, hrows', hcolumns'⟩ :=
    (placed_fill m.slotBoundary t).foldl_markDefined G m.definedTerrainSlots
  subst ht
  exact ⟨hplaced, hrows'.trans hrows, hcolumns'.trans hcolumns⟩

/-- Every slot is shown once and in place: the button of a cell has the coordinates the table gives
the cell, and the table finds the cell for them; two cells are not of one slot; and the cells next
to each other are of slots next to each other. -/
structure InPlace (bound : Box Int) (t : SlotTable) : Prop where
  cell : ∀ r < t.rowCount, ∀ c < t.columnCount, ∃ w, t.cellWidget r c = some w ∧
    (w.x, w.y) = t.tableToSlot bound c r ∧ t.slotToTable bound w.x w.y = ((c : Int), (r : Int))
  once : ∀ r < t.rowCount, ∀ c < t.columnCount, ∀ r' < t.rowCount, ∀ c' < t.columnCount, ∀ w w',
    t.cellWidget r c = some w → t.cellWidget r' c' = some w' → (w.x, w.y) = (w'.x, w'.y) →
      r = r' ∧ c = c'
  nextColumn : ∀ r < t.rowCount, ∀ c, c + 1 < t.columnCount → ∀ w w', t.cellWidget r c = some w →
    t.cellWidget r (c + 1) = some w' → w'.x = w.x + 1 ∧ w'.y = w.y
  nextRow : ∀ r, r + 1 < t.rowCount → ∀ c < t.columnCount, ∀ w w', t.cellWidget r c = some w →
    t.cellWidget (r + 1) c = some w' → w'.x = w.x ∧ w'.y = w.y + 1

theorem Placed.coordinates (h : Placed bound t) {r c : Nat} (hr : r < t.rowCount)
    (hc : c < t.columnCount) {w : SlotWidget} (hw : t.cellWidget r c = some w) :
    w.x = (t.tableToSlot bound c r).1 ∧ w.y = (t.tableToSlot bound c r).2 := by
  have hcell := h r hr c hc
  rw [hw, Option.map_some, Option.some.injEq] at hcell
  exact ⟨congrArg Prod.fst hcell, congrArg Prod.snd hcell⟩

theorem inPlace_iff_placed : InPlace bound t ↔ Placed bound t := by
  refine ⟨fun h r hr c hc => ?_, fun h => ⟨?_, ?_, ?_, ?_⟩⟩
  · obtain ⟨w, hw, heq, -⟩ := h.cell r hr c hc
    rw [hw, Option.map_some, heq]
  · intro r hr c hc
    obtain ⟨w, hw, heq⟩ := Option.map_eq_some_iff.1 (h r hr c hc)
    obtain ⟨hx, hy⟩ := h.coordinates hr hc hw
    refine ⟨w, hw, heq, ?_⟩
    simp only [tableToSlot] at hx hy
    rw [slotToTable, hx, hy]
    refine Prod.ext ?_ ?_
    · dsimp only
      omega
    · dsimp only
      omega
  · intro r hr c hc r' hr' c' hc' w w' hw hw' heq
    obtain ⟨hx, hy⟩ := h.coordinates hr hc hw
    obtain ⟨hx', hy'⟩ := h.coordinates hr' hc' hw'
    simp only [Prod.mk.injEq, tableToSlot] at heq hx hy hx' hy'
    omega
  · intro r hr c hc w w' hw hw'
    obtain ⟨hx, hy⟩ := h.coordinates hr (by omega) hw
    obtain ⟨hx', hy'⟩ := h.coordinates hr hc hw'
    simp only [tableToSlot] at hx hy hx' hy'
    omega
  · intro r hr c hc w w' hw hw'
    obtain ⟨hx, hy⟩ := h.coordinates (by omega) hc hw
    obtain ⟨hx', hy'⟩ := h.coordinates hr hc hw'
    simp only [tableToSlot] at hx hy hx' hy'
    omega

/-- **The slot grid.** After any columns and rows were added the table shows every slot once and in
place, if and only if columns were added only around a boundary with an even number of columns, and
rows only around one with an even number of rows. -/
theorem inPlace_iff (G : TerrainGroup) (m : CampaignSlots) (calls : List GridCall)
    (hwidth : m.slotBoundary.left ≤ m.slotBoundary.right)
    (hheight : m.slotBoundary.top ≤ m.slotBoundary.bottom) :
    InPlace m.slotBoundary (calls.foldl (apply m.slotBoundary) (populate G m)) ↔
      (.addColumn ∈ calls → (m.slotBoundary.right - m.slotBoundary.left) % 2 = 1) ∧
        (.addRow ∈ calls → (m.slotBoundary.bottom - m.slotBoundary.top) % 2 = 1) := by
  obtain ⟨hplaced, hrows, hcolumns⟩ := placed_populate G m
  obtain ⟨hx, hy⟩ := placed_iff.1 hplaced
  have hx' := columnsInPlace_run_iff hx (by omega) hwidth (by omega) calls
  have hy' := columnsInPlace_run_iff hy (by simp only [swap]; omega) hheight
    (by simp only [swap, swapBound]; omega) (calls.map GridCall.swap)
  rw [addColumn_mem_map_swap, ← swap_run] at hy'
  rw [inPlace_iff_placed, placed_iff, hx', hy']
  rfl

/-- Two slots next to each other diagonally, and a column to the left of them. -/
theorem inPlace_two :
    let m := ModifyTerrainSlot.redo .halves ⟨true, 1, 1⟩
      (CampaignSlots.initializeSlots .halves ⟨[], ⟨0, 0, 0, 0⟩, 0, 0⟩ 513 200)
    InPlace m.slotBoundary ((populate .halves m).addColumn m.slotBoundary) :=
  (inPlace_iff .halves (ModifyTerrainSlot.redo .halves ⟨true, 1, 1⟩
    (CampaignSlots.initializeSlots .halves ⟨[], ⟨0, 0, 0, 0⟩, 0, 0⟩ 513 200)) [.addColumn]
    (by decide) (by decide)).2 ⟨fun _ => by decide, fun _ => by decide⟩

/-- One slot, and a column that repeats it. -/
theorem not_inPlace_one :
    let m := CampaignSlots.initializeSlots .halves ⟨[], ⟨0, 0, 0, 0⟩, 0, 0⟩ 513 200
    ¬ ∀ calls : List GridCall,
      InPlace m.slotBoundary (calls.foldl (apply m.slotBoundary) (populate .halves m)) := by
  intro m hall
  have hplace := hall [.addColumn]
  have honce := hplace.once 0 (by decide) 0 (by decide) 0 (by decide) 1 (by decide) ⟨0, 0, true⟩
    ⟨0, 0, false⟩ (by decide) (by decide) rfl
  exact absurd honce.2 (by decide)

end

end SlotTable

end NetSiege
