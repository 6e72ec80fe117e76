import LittleMan.Text.Basic

/-! Example programs, offered for blank documents. -/

namespace LittleMan

structure Template where
  name : Text
  /-- The lines, each of which ends with a break. -/
  lines : List Text
  deriving DecidableEq, Repr

namespace Template

def text (t : Template) : List CodePoint := t.lines.flatMap fun line => line.toList ++ [.scalar '\n']

def addition : Template where
  name := "Add two numbers"
  lines :=
    ["; Read two numbers and output their sum.",
      "        INP",
      "        STA FIRST",
      "        INP",
      "        ADD FIRST",
      "        OUT",
      "        HLT",
      "FIRST   DAT 0"]

def countdown : Template where
  name := "Countdown"
  lines :=
    ["; Count down from the input to zero.",
      "        INP",
      "LOOP    OUT",
      "        SUB ONE",
      "        BRP LOOP",
      "        HLT",
      "ONE     DAT 1"]

def maximum : Template where
  name := "Maximum of two numbers"
  lines :=
    ["; Output the larger of two inputs.",
      "        INP",
      "        STA FIRST",
      "        INP",
      "        STA SECOND",
      "        SUB FIRST",
      "        BRP TAKEB",
      "        LDA FIRST",
      "        BRA DONE",
      "TAKEB   LDA SECOND",
      "DONE    OUT",
      "        HLT",
      "FIRST   DAT 0",
      "SECOND  DAT 0"]

def multiplication : Template where
  name := "Multiply"
  lines :=
    ["; Multiply two inputs by repeated addition.",
      "        INP",
      "        STA FACTOR",
      "        INP",
      "        STA COUNT",
      "LOOP    LDA COUNT",
      "        BRZ DONE",
      "        SUB #1",
      "        STA COUNT",
      "        LDA RESULT",
      "        ADD FACTOR",
      "        STA RESULT",
      "        BRA LOOP",
      "DONE    LDA RESULT",
      "        OUT",
      "        HLT",
      "FACTOR  DAT 0",
      "COUNT   DAT 0",
      "RESULT  DAT 0"]

def all : List Template := [addition, countdown, maximum, multiplication]

def find? (name : Text) : Option Template := all.find? fun t => t.name = name

def missingMessage (name : Text) : Text := "No such template: " ++ name

end Template

end LittleMan
