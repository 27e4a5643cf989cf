import Hack.Assembly.Listing

namespace Hack.CommandLine

open Hack.Assembly

/-- A number in hexadecimal with four digits or more. -/
def hexadecimal (value : Nat) : String :=
  String.ofList (((Nat.toDigits 16 value).map Char.toUpper).leftpad 4 '0')

def cells (entry : Entry) : List String :=
  ["0x" ++ hexadecimal entry.index ++ ":", entry.source, "=>", Word.binary entry.word]

/-- The width of each of so many columns: that of its widest cell. -/
def columnWidths (columns : Nat) (rows : List (List String)) : List Nat :=
  rows.foldl (fun widths row => List.zipWith max widths (row.map String.length)) (List.replicate columns 0)

/-- A text with spaces after it, up to a width. -/
def pad (width : Nat) (text : String) : String :=
  String.ofList (text.toList.rightpad width ' ')

/-- A row with every cell filled up to the width of its column. -/
def tableRow (widths : List Nat) (row : List String) : String :=
  " ".intercalate ((row.zip widths).map fun (cell, width) => pad width cell) ++ "\n"

/-- The rows of the listing, one for each instruction. -/
def table (entries : List Entry) : String :=
  let rows := entries.map cells
  String.join (rows.map (tableRow (columnWidths 4 rows)))

end Hack.CommandLine
