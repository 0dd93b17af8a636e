import LibWebserver.Library.CStr

/-! The appenders that write a repeated message once. What a call writes is kept as the list
of records that went to the file. -/

namespace LibWebserver.Logger
open CStr

structure LoggingEvent where
  categoryName : Bytes
  message : Bytes
  ndc : Bytes
  priority : Int
  deriving DecidableEq, Repr

/-- An event as it came, or the record of how often the last message was repeated. -/
inductive Record where
  | event (event : LoggingEvent)
  | repeated (count : Nat) (event : LoggingEvent)
  deriving DecidableEq, Repr

structure SuppressedAppender where
  category : Bytes
  message : Bytes
  ndc : Bytes
  priority : Int
  count : Nat
  written : List Record
  deriving DecidableEq, Repr

/-- The constructors leave `priority_` as it is. -/
def created (priority : Int) : SuppressedAppender :=
  { category := [], message := [], ndc := [], priority, count := 0, written := [] }

/-- The `_append` of both appenders, which write through `FileAppender::_append`. The counter
is a `uint32_t`. -/
def suppress (appender : SuppressedAppender) (event : LoggingEvent) : SuppressedAppender :=
  if appender.message ≠ event.message then
    let written :=
      if appender.count ≠ 0 then
        let message := ascii "Last message was repeated " ++ decimal appender.count ++ ascii " times"
        let repeated : LoggingEvent :=
          { categoryName := appender.category, message, ndc := appender.ndc, priority := appender.priority }
        appender.written ++ [.repeated appender.count repeated]
      else appender.written
    { category := event.categoryName, message := event.message, ndc := event.ndc, priority := event.priority, count := 0
      written := written ++ [.event event] }
  else { appender with count := (appender.count + 1) % 2 ^ 32 }

def SuppressedFileAppender.append : SuppressedAppender → LoggingEvent → SuppressedAppender := suppress

def SuppressedRollingFileAppender.append : SuppressedAppender → LoggingEvent → SuppressedAppender := suppress

end LibWebserver.Logger
