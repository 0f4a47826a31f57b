/-!
# Hardware components

The kinds of components a board can have, with what the editor says about each.
-/

namespace BlockSketch

inductive ComponentKind where
  | led
  | button
  | temperature
  | humidity
  | imu
  | microphone
  deriving DecidableEq, Repr

namespace ComponentKind

def all : List ComponentKind :=
  [.led, .button, .temperature, .humidity, .imu, .microphone]

def name : ComponentKind → String
  | .led => "led"
  | .button => "button"
  | .temperature => "temperature"
  | .humidity => "humidity"
  | .imu => "imu"
  | .microphone => "microphone"

def title : ComponentKind → String
  | .led => "LED"
  | .button => "Button"
  | .temperature => "Temperature Sensor"
  | .humidity => "Humidity Sensor"
  | .imu => "Motion Sensor"
  | .microphone => "Microphone"

def category : ComponentKind → String
  | .led => "actuator"
  | .button => "input"
  | _ => "sensor"

def description : ComponentKind → String
  | .led => "Light Emitting Diode"
  | .button => "Push Button"
  | .temperature => "HTS221 Temperature"
  | .humidity => "HTS221 Humidity"
  | .imu => "IMU Accelerometer"
  | .microphone => "MP34DT05 Microphone"

/-- The sensors on the board exist once; others can be wired to many pins. -/
def isExclusive : ComponentKind → Bool
  | .led | .button => false
  | _ => true

def colour : ComponentKind → String
  | .led => "#f59e0b"
  | .button => "#3b82f6"
  | _ => "#10b981"

end ComponentKind

end BlockSketch
